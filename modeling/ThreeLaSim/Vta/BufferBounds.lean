import Mathlib.Data.Nat.ModEq
import ThreeLaSim.Vta.Tiling

/-!
# The bounds of `blocked_gemm_test`

`blocked_gemm_test` allocates its instruction buffer from a closed formula, addresses packed
operands in DRAM and slots on chip, and asserts that one block of each operand fits its memory.
When is that enough?  Its loop over the channels advances by `block * virtual_threads` and always
takes `virtual_threads` steps; the assertions speak of `block` alone.

* **`fillsBuffer_iff`** — the buffer is filled exactly, and no transfer leaves its operand, if and
  only if the channels are a multiple of `block * virtual_threads` and no size leaves `int`.
* **`staysOnChip_iff`** — every slot exists if and only if there are at most two threads and the
  blocks of all threads together fit the input and the weight memory.
-/

namespace ThreeLaSim

open LoopNest

namespace MemInsn

variable {m : MemInsn}

/-- The SRAM side of a transfer. -/
lemma slot_lt {mv : ℕ × ℕ} (h : mv ∈ m.moves) : mv.1 < m.sramBase + m.ySize * m.xSize := by
  rw [moves_eq] at h
  obtain ⟨n, hn, rfl⟩ := List.mem_map.mp h
  have hn := List.mem_range.mp hn
  simp only
  omega

/-- The DRAM side of a transfer whose rectangle starts at row `r` and column `c` of a matrix of
blocks and does not leave it. -/
lemma dram_lt {rows cols r c : ℕ} (hbase : m.dramBase = r * cols + c) (hstride : m.xStride = cols)
    (hrows : r + m.ySize ≤ rows) (hcols : c + m.xSize ≤ cols) {mv : ℕ × ℕ} (h : mv ∈ m.moves) :
    mv.2 < rows * cols := by
  simp only [moves, List.mem_flatMap, List.mem_map, List.mem_range] at h
  obtain ⟨y, hy, x, hx, rfl⟩ := h
  have hpos : r * cols + c + y * cols + x = (r + y) * cols + (c + x) := by ring
  simp only [hbase, hstride, hpos]
  exact mul_add_lt (by omega) (by omega)

/-- A transfer that covers the tile at row `y` and column `x` of a packed matrix, in blocks of `a`
rows and `b` columns, stays inside the matrix. -/
lemma tile_dram_lt {a b y x block height width : ℕ} (hb : 0 < b) (ha : a ∣ block) (hb' : b ∣ block)
    (hwidth : b ∣ width) (hy : y + block ≤ height) (hx : x + block ≤ width)
    (hbase : m.dramBase = (y / a * width + x) / b) (hstride : m.xStride = width / b)
    (hym : m.ySize = block / a) (hxm : m.xSize = block / b) {mv : ℕ × ℕ} (h : mv ∈ m.moves) :
    mv.2 < height / a * width / b := by
  rw [Nat.mul_div_assoc _ hwidth]
  refine dram_lt (hbase.trans (blockOffset_eq hb hwidth _ _)) hstride ?_ ?_ h
  · rw [hym, ← Nat.add_div_of_dvd_left ha]
    exact Nat.div_le_div_right hy
  · rw [hxm, ← Nat.add_div_of_dvd_left hb']
    exact Nat.div_le_div_right hx

/-- The last move of a transfer fills the last slot. -/
lemma exists_last (hy : 0 < m.ySize) (hx : 0 < m.xSize) :
    ∃ mv ∈ m.moves, mv.1 + 1 = m.sramBase + m.ySize * m.xSize := by
  have hn : 0 < m.ySize * m.xSize := Nat.mul_pos hy hx
  rw [moves_eq]
  refine ⟨_, List.mem_map_of_mem (List.mem_range.mpr (Nat.sub_one_lt hn.ne')), ?_⟩
  simp only
  omega

end MemInsn

/-- The number of slots of an on-chip memory; a store reads the accumulator. -/
def VtaConfig.depth (cfg : VtaConfig) : MemId → ℕ
  | .uop => cfg.uopBuffDepth
  | .wgt => cfg.wgtBuffDepth
  | .inp => cfg.inpBuffDepth
  | .acc => cfg.accBuffDepth
  | .out => cfg.accBuffDepth

namespace BlockedGemm

variable (cfg : VtaConfig) (p : BlockedGemm)

/-- The number of blocks of the packed operand a memory is loaded from or stored to; of the
micro-op buffer, the micro-ops the test asks for. -/
def operandSize : MemId → ℕ
  | .uop => p.uopSize cfg
  | .wgt => p.wgtSize cfg
  | .inp => p.inpSize cfg
  | .acc => p.outSize cfg
  | .out => p.outSize cfg

/-- The sizes of the operands, as they are computed. -/
def operandSizeExpr : MemId → IntExpr
  | .uop => p.uopSizeExpr cfg
  | .wgt => p.wgtSizeExpr cfg
  | .inp => p.inpSizeExpr cfg
  | .acc => p.outSizeExpr cfg
  | .out => p.outSizeExpr cfg

/-- The micro-op buffer of the test. -/
def uops : List Uop :=
  getGEMMUops (p.block / cfg.vtaBatch) (p.block / cfg.vtaBlockIn) (p.block / cfg.vtaBlockOut)
    p.uopCompression (decide (p.virtualThreads > 1))

/-- The instruction buffer is filled exactly, no transfer leaves its operand, and no step leaves the
channels.  This takes that the sizes and the DRAM offsets are computed at all: where an `int`
overflows, the test is undefined and has promised nothing. -/
structure FillsBuffer : Prop where
  insSize_eq : p.insSizeExpr.eval = some (p.insns cfg).length
  operandSize_eq : ∀ mem, (p.operandSizeExpr cfg mem).eval = some (p.operandSize cfg mem)
  outBase_eq : ∀ i ∈ upTo p.batch p.block, ∀ j ∈ upTo p.outFeat p.block,
    (p.outOffsetExpr cfg i j).eval = some (p.accInsn cfg i j).dramBase ∧
    (p.outOffsetExpr cfg i j).eval = some (p.storeInsn cfg i j).dramBase
  wgtBase_eq : ∀ i ∈ upTo p.batch p.block, ∀ j ∈ upTo p.outFeat p.block,
    ∀ k ∈ upTo p.inFeat (p.block * p.virtualThreads),
    ∀ l ∈ upTo (p.block * p.virtualThreads) p.block,
      (p.wgtOffsetExpr cfg j k l).eval = some (p.wgtInsn cfg i j k l).dramBase
  inpBase_eq : ∀ i ∈ upTo p.batch p.block, ∀ k ∈ upTo p.inFeat (p.block * p.virtualThreads),
    ∀ l ∈ upTo (p.block * p.virtualThreads) p.block,
      (p.inpOffsetExpr cfg i k l).eval = some (p.inpInsn cfg i k l).dramBase
  dram_lt : ∀ m, .mem m ∈ p.insns cfg → ∀ mv ∈ m.moves, mv.2 < p.operandSize cfg m.memoryType
  channels_le : ∀ k ∈ upTo p.inFeat (p.block * p.virtualThreads),
    ∀ l ∈ upTo (p.block * p.virtualThreads) p.block, k + l + p.block ≤ p.inFeat

/-- The parameters for which the sizes and offsets are `int`s: the instruction count, the products
before the last division of the operand sizes, the offset of the last weight block, and the count of
uncompressed micro-ops. -/
structure IntRange : Prop where
  insSize_lt :
    p.batch / p.block * (p.channels / p.block) * (2 + p.channels / p.block * 3) + 2 < 2 ^ 31
  rows_lt : p.batch / cfg.vtaBatch * p.channels < 2 ^ 31
  columns_lt : p.channels / cfg.vtaBlockIn * p.channels < 2 ^ 31
  lastWgt_lt : (p.channels - p.block) / cfg.vtaBlockOut * p.channels + (p.channels - p.block) < 2 ^ 31
  uops_lt : p.uopCompression = false →
    p.block / cfg.vtaBatch * p.block / cfg.vtaBlockIn * p.block < 2 ^ 31 ∧
    p.block / cfg.vtaBatch * p.block / cfg.vtaBlockIn * p.block / cfg.vtaBlockOut
      * p.virtualThreads < 2 ^ 31

/-- Every on-chip slot the stream touches exists: the slots of the transfers, the slots a GEMM
computes on, and the micro-ops it and the micro-op load take. -/
structure StaysOnChip : Prop where
  transfer_lt : ∀ m, .mem m ∈ p.insns cfg → ∀ mv ∈ m.moves, mv.1 < cfg.depth m.memoryType
  gemm_lt : ∀ g, .gem g ∈ p.insns cfg → ∀ u ∈ g.expand (p.uops cfg),
    u.dstIdx < cfg.accBuffDepth ∧ u.srcIdx < cfg.inpBuffDepth ∧ u.wgtIdx < cfg.wgtBuffDepth
  uop_lt : ∀ g, .gem g ∈ p.insns cfg → ∀ s, g.uopBgn ≤ s → s < g.uopEnd →
    s < (p.uops cfg).length
  uopSize_le : p.uopSize cfg ≤ (p.uops cfg).length

variable {cfg p}

/-! ## The instructions of the stream -/

/-- The stream without its labels. -/
lemma insns_eq : p.insns cfg =
    [.mem (p.uopInsn cfg)] ++
    ((upTo p.batch p.block).flatMap fun i =>
      (upTo p.outFeat p.block).flatMap fun j =>
        [.mem (p.accInsn cfg i j)] ++
        ((upTo p.inFeat (p.block * p.virtualThreads)).flatMap fun k =>
          (upTo (p.block * p.virtualThreads) p.block).flatMap fun l =>
            [.mem (p.wgtInsn cfg i j k l), .mem (p.inpInsn cfg i k l),
              .gem (p.gemmInsn cfg i j k l)]) ++
        [.mem (p.storeInsn cfg i j)]) ++
    [.gem (getFinishInsn false true)] := by
  simp only [insns, labelled, stepInsns, List.map_append, List.map_flatMap, List.map_cons,
    List.map_nil]

lemma mem_insns {m : MemInsn} : .mem m ∈ p.insns cfg ↔ m = p.uopInsn cfg ∨
    ∃ i ∈ upTo p.batch p.block, ∃ j ∈ upTo p.outFeat p.block, m = p.accInsn cfg i j ∨
      (∃ k ∈ upTo p.inFeat (p.block * p.virtualThreads),
        ∃ l ∈ upTo (p.block * p.virtualThreads) p.block,
          m = p.wgtInsn cfg i j k l ∨ m = p.inpInsn cfg i k l) ∨
      m = p.storeInsn cfg i j := by
  simp [insns_eq]

lemma gem_mem_insns {g : GemInsn} : .gem g ∈ p.insns cfg ↔
    (∃ i ∈ upTo p.batch p.block, ∃ j ∈ upTo p.outFeat p.block,
      ∃ k ∈ upTo p.inFeat (p.block * p.virtualThreads),
        ∃ l ∈ upTo (p.block * p.virtualThreads) p.block, g = p.gemmInsn cfg i j k l) ∨
    g = getFinishInsn false true := by
  simp [insns_eq]

/-! ## Filling the buffer -/

/-- The length of the stream: three instructions for each of `virtualThreads` steps, as often as the
loop over the channels turns. -/
lemma length_insns_eq (hblock : 0 < p.block) (h : p.Divides cfg) : (p.insns cfg).length =
    p.batch / p.block * (p.channels / p.block) *
      (2 + (upTo p.inFeat (p.block * p.virtualThreads)).length * p.virtualThreads * 3) + 2 := by
  obtain ⟨B, hB⟩ := h.block_dvd_batch
  obtain ⟨n, hn⟩ := h.block_dvd_channels
  have hturns : ∀ a, (upTo (p.block * a) p.block).length = a := by
    intro a
    rw [Nat.mul_comm, upTo_mul hblock, List.length_map, List.length_range]
  have hout : p.outFeat = p.block * n := hn
  rw [insns_eq, hB, hout, hn, Nat.mul_div_cancel_left _ hblock, Nat.mul_div_cancel_left _ hblock]
  simp [List.length_flatMap, hturns]
  ring

/-- The loop over the channels takes the channel blocks once each exactly when it divides them. -/
lemma turns_eq_iff (hblock : 0 < p.block) (hvt : 0 < p.virtualThreads) (h : p.Divides cfg) :
    (upTo p.inFeat (p.block * p.virtualThreads)).length * p.virtualThreads = p.channels / p.block ↔
      p.block * p.virtualThreads ∣ p.channels := by
  have hchan := h.block_dvd_channels
  constructor
  · intro hturns
    refine ⟨(upTo p.inFeat (p.block * p.virtualThreads)).length, ?_⟩
    rw [Nat.mul_assoc, Nat.mul_comm p.virtualThreads, hturns, Nat.mul_div_cancel' hchan]
  · rintro ⟨t, ht⟩
    have hinFeat : p.inFeat = t * (p.block * p.virtualThreads) := by
      rw [inFeat, ht, Nat.mul_comm]
    rw [hinFeat, upTo_mul (Nat.mul_pos hblock hvt), List.length_map, List.length_range, ht,
      Nat.mul_assoc, Nat.mul_div_cancel_left _ hblock, Nat.mul_comm]

/-- The stream has the length it was allocated with exactly when the threads divide the channel
blocks. -/
lemma length_insns_iff (hbatch : 0 < p.batch) (hchannels : 0 < p.channels) (hblock : 0 < p.block)
    (hvt : 0 < p.virtualThreads) (h : p.Divides cfg) :
    (p.insns cfg).length = p.insSize ↔ p.block * p.virtualThreads ∣ p.channels := by
  have hchan := h.block_dvd_channels
  have htiles : 0 < p.batch / p.block * (p.channels / p.block) :=
    Nat.mul_pos (Nat.div_pos (Nat.le_of_dvd hbatch h.block_dvd_batch) hblock)
      (Nat.div_pos (Nat.le_of_dvd hchannels hchan) hblock)
  have hsize : p.insSize
      = p.batch / p.block * (p.channels / p.block) * (2 + p.channels / p.block * 3) + 2 := by
    rw [insSize, inFeat, outFeat, Nat.mul_div_assoc _ hchan]
  rw [length_insns_eq hblock h, hsize, ← turns_eq_iff hblock hvt h, Nat.add_right_cancel_iff,
    Nat.mul_right_inj htiles.ne']
  omega

/-- The transfers stay inside their operands. -/
lemma transfer_dram_lt (hblock : 0 < p.block) (hvt : 0 < p.virtualThreads) (h : p.Divides cfg)
    (hdvd : p.block * p.virtualThreads ∣ p.channels) {m : MemInsn} (hm : .mem m ∈ p.insns cfg) :
    ∀ mv ∈ m.moves, mv.2 < p.operandSize cfg m.memoryType := by
  have hin := h.blockIn_dvd
  have hout := h.blockOut_dvd
  have hbat := h.vtaBatch_dvd
  have hchan := h.block_dvd_channels
  have hrows := h.block_dvd_batch
  intro mv hmv
  rcases mem_insns.mp hm with rfl | ⟨i, hi, j, hj, rfl | ⟨k, hk, l, hl, rfl | rfl⟩ | rfl⟩
  · -- the micro-ops, in one row
    have hlt := MemInsn.dram_lt (m := p.uopInsn cfg) (r := 0) (c := 0) (by rw [Nat.zero_mul]; rfl) rfl
      (Nat.zero_add 1).le (Nat.zero_add _).le hmv
    rwa [Nat.one_mul] at hlt
  · exact MemInsn.tile_dram_lt cfg.vtaBlockOut_pos hbat hout (hout.trans hchan)
      (tile_fits hblock hrows hi).2 (tile_fits hblock hchan hj).2 rfl rfl rfl rfl hmv
  · -- the rows of the weights are the output channels
    have hlt := MemInsn.tile_dram_lt cfg.vtaBlockIn_pos hout hin (hin.trans hchan)
      (tile_fits hblock hchan hj).2 (step_fits hblock hvt hdvd hk hl).2
      (congrArg (· / cfg.vtaBlockIn) (Nat.add_assoc _ k l)) rfl rfl rfl hmv
    have hsize : p.wgtSize cfg = p.channels / cfg.vtaBlockOut * p.channels / cfg.vtaBlockIn := by
      rw [wgtSize, inFeat, outFeat, Nat.mul_div_assoc _ (hout.trans hchan),
        Nat.mul_div_assoc _ (hin.trans hchan), Nat.mul_comm]
    exact hlt.trans_eq hsize.symm
  · exact MemInsn.tile_dram_lt cfg.vtaBlockIn_pos hbat hin (hin.trans hchan)
      (tile_fits hblock hrows hi).2 (step_fits hblock hvt hdvd hk hl).2
      (congrArg (· / cfg.vtaBlockIn) (Nat.add_assoc _ k l)) rfl rfl rfl hmv
  · exact MemInsn.tile_dram_lt cfg.vtaBlockOut_pos hbat hout (hout.trans hchan)
      (tile_fits hblock hrows hi).2 (tile_fits hblock hchan hj).2 rfl rfl rfl rfl hmv

/-! ## The range of `int` -/

/-- The exact values of the sizes. -/
lemma value_operandSizeExpr (mem : MemId) : (p.operandSizeExpr cfg mem).value = p.operandSize cfg mem := by
  cases mem with
  | uop =>
      rw [operandSizeExpr, operandSize, uopSizeExpr, uopSize]
      cases p.uopCompression <;> rfl
  | wgt | inp | acc | out => rfl

/-! A size or an offset is an `int` when its last sum or product is. -/

lemma fits_inpSizeExpr :
    (p.inpSizeExpr cfg).Fits ↔ p.batch / cfg.vtaBatch * p.channels < 2 ^ 31 := by
  simp [inpSizeExpr, inFeat, cfg.vtaBatch_pos, cfg.vtaBlockIn_pos]

lemma fits_outSizeExpr :
    (p.outSizeExpr cfg).Fits ↔ p.batch / cfg.vtaBatch * p.channels < 2 ^ 31 := by
  simp [outSizeExpr, outFeat, cfg.vtaBatch_pos, cfg.vtaBlockOut_pos]

lemma fits_wgtSizeExpr :
    (p.wgtSizeExpr cfg).Fits ↔ p.channels / cfg.vtaBlockIn * p.channels < 2 ^ 31 := by
  simp [wgtSizeExpr, inFeat, outFeat, cfg.vtaBlockIn_pos, cfg.vtaBlockOut_pos]

lemma fits_uopSizeExpr : (p.uopSizeExpr cfg).Fits ↔
    if p.uopCompression then p.block / cfg.vtaBatch * p.virtualThreads < 2 ^ 31
    else p.block / cfg.vtaBatch * p.block < 2 ^ 31 ∧
      p.block / cfg.vtaBatch * p.block / cfg.vtaBlockIn * p.block < 2 ^ 31 ∧
      p.block / cfg.vtaBatch * p.block / cfg.vtaBlockIn * p.block / cfg.vtaBlockOut
        * p.virtualThreads < 2 ^ 31 := by
  rw [uopSizeExpr]
  split_ifs
  · simp [cfg.vtaBatch_pos]
  · simp [cfg.vtaBatch_pos, cfg.vtaBlockIn_pos, cfg.vtaBlockOut_pos, and_assoc]

lemma fits_outOffsetExpr {i j : ℕ} :
    (p.outOffsetExpr cfg i j).Fits ↔ i / cfg.vtaBatch * p.channels + j < 2 ^ 31 := by
  simp only [outOffsetExpr, outFeat, IntExpr.fits_add, IntExpr.fits_mul, IntExpr.fits_div,
    IntExpr.fits_var, IntExpr.value_mul, IntExpr.value_div, IntExpr.value_var, true_and,
    cfg.vtaBatch_pos, cfg.vtaBlockOut_pos, and_true]
  omega

lemma fits_wgtOffsetExpr {j k l : ℕ} :
    (p.wgtOffsetExpr cfg j k l).Fits ↔ j / cfg.vtaBlockOut * p.channels + (k + l) < 2 ^ 31 := by
  simp only [wgtOffsetExpr, inFeat, IntExpr.fits_add, IntExpr.fits_mul, IntExpr.fits_div,
    IntExpr.fits_var, IntExpr.value_add, IntExpr.value_mul, IntExpr.value_div, IntExpr.value_var,
    true_and, cfg.vtaBlockIn_pos, cfg.vtaBlockOut_pos, and_true]
  omega

lemma fits_inpOffsetExpr {i k l : ℕ} :
    (p.inpOffsetExpr cfg i k l).Fits ↔ i / cfg.vtaBatch * p.channels + (k + l) < 2 ^ 31 := by
  simp only [inpOffsetExpr, inFeat, IntExpr.fits_add, IntExpr.fits_mul, IntExpr.fits_div,
    IntExpr.fits_var, IntExpr.value_add, IntExpr.value_mul, IntExpr.value_div, IntExpr.value_var,
    true_and, cfg.vtaBatch_pos, cfg.vtaBlockIn_pos, and_true]
  omega

section Range

variable (hblock : 0 < p.block) (h : p.Divides cfg)
include hblock h

/-- The instruction count is an `int` when all its parts are. -/
lemma insSize_fits_iff (hbatch : 0 < p.batch) (hchannels : 0 < p.channels) : p.insSizeExpr.Fits ↔
    p.batch / p.block * p.channels < 2 ^ 31 ∧
    p.batch / p.block * (p.channels / p.block) * (2 + p.channels / p.block * 3) + 2 < 2 ^ 31 := by
  have hbatchBlocks := Nat.div_pos (Nat.le_of_dvd hbatch h.block_dvd_batch) hblock
  have hsteps := Nat.div_pos (Nat.le_of_dvd hchannels h.block_dvd_channels) hblock
  simp only [insSizeExpr, inFeat, outFeat, IntExpr.fits_add, IntExpr.fits_mul, IntExpr.fits_div,
    IntExpr.fits_var, IntExpr.value_add, IntExpr.value_mul, IntExpr.value_div,
    IntExpr.value_var, true_and, hblock, and_true,
    Nat.mul_div_assoc _ h.block_dvd_channels]
  have hturns : 2 + p.channels / p.block * 3
      ≤ p.batch / p.block * (p.channels / p.block) * (2 + p.channels / p.block * 3) :=
    Nat.le_mul_of_pos_left _ (Nat.mul_pos hbatchBlocks hsteps)
  omega

variable (hrange : p.IntRange cfg)
include hrange

/-- An offset that ends inside the rows of the packed operand is an `int`. -/
lemma rows_add_lt {i c : ℕ} (hi : i ∈ upTo p.batch p.block) (hc : c < p.channels) :
    i / cfg.vtaBatch * p.channels + c < 2 ^ 31 := by
  obtain ⟨-, hend⟩ := tile_fits hblock h.block_dvd_batch hi
  have hrow : i / cfg.vtaBatch < p.batch / cfg.vtaBatch :=
    Nat.div_lt_div_of_lt_of_dvd (h.vtaBatch_dvd.trans h.block_dvd_batch) (by omega)
  exact (mul_add_lt hrow hc).trans hrange.rows_lt

omit h hblock in
/-- An offset up to that of the last weight block is an `int`. -/
lemma wgt_add_lt {j c : ℕ} (hj : j + p.block ≤ p.channels) (hc : c + p.block ≤ p.channels) :
    j / cfg.vtaBlockOut * p.channels + c < 2 ^ 31 := by
  have hrow : j / cfg.vtaBlockOut * p.channels
      ≤ (p.channels - p.block) / cfg.vtaBlockOut * p.channels :=
    Nat.mul_le_mul_right _ (Nat.div_le_div_right (by omega))
  have hlast := hrange.lastWgt_lt
  omega

/-- The operand sizes are `int`s. -/
lemma operandSize_fits (hbatch : 0 < p.batch) (hchannels : 0 < p.channels)
    (hdvd : p.block * p.virtualThreads ∣ p.channels) (mem : MemId) :
    (p.operandSizeExpr cfg mem).Fits := by
  have hrows := hrange.rows_lt
  have hblockBatch : p.block ≤ p.batch := Nat.le_of_dvd hbatch h.block_dvd_batch
  have hblockChannels : p.block ≤ p.channels := Nat.le_of_dvd hchannels h.block_dvd_channels
  have hbatchRows : p.block / cfg.vtaBatch ≤ p.batch / cfg.vtaBatch := Nat.div_le_div_right hblockBatch
  have hsize : ∀ {n : ℕ}, n ≤ p.channels → p.block / cfg.vtaBatch * n < 2 ^ 31 :=
    fun hn => (Nat.mul_le_mul hbatchRows hn).trans_lt hrows
  cases mem with
  | uop =>
      have hthreads : p.virtualThreads ≤ p.channels :=
        (Nat.le_mul_of_pos_left _ hblock).trans (Nat.le_of_dvd hchannels hdvd)
      refine fits_uopSizeExpr.mpr ?_
      split_ifs with hcomp
      · exact hsize hthreads
      · exact ⟨hsize hblockChannels, hrange.uops_lt (Bool.eq_false_of_not_eq_true hcomp)⟩
  | wgt => exact fits_wgtSizeExpr.mpr hrange.columns_lt
  | inp => exact fits_inpSizeExpr.mpr hrows
  | acc | out => exact fits_outSizeExpr.mpr hrows

end Range

/-- The last weight load. -/
lemma last_step (hblock : 0 < p.block) (hvt : 1 ≤ p.virtualThreads) (hchannels : 0 < p.channels)
    (hdvd : p.block * p.virtualThreads ∣ p.channels) :
    p.channels - p.block ∈ upTo p.outFeat p.block ∧
    p.channels - p.block * p.virtualThreads ∈ upTo p.inFeat (p.block * p.virtualThreads) ∧
    p.block * p.virtualThreads - p.block ∈ upTo (p.block * p.virtualThreads) p.block := by
  have hstep := Nat.mul_pos hblock hvt
  have hchan : p.block ∣ p.channels := (Nat.dvd_mul_right _ _).trans hdvd
  refine ⟨(mem_upTo hblock).mpr ⟨Nat.dvd_sub hchan dvd_rfl, Nat.sub_lt hchannels hblock⟩,
    (mem_upTo hstep).mpr ⟨Nat.dvd_sub hdvd dvd_rfl, Nat.sub_lt hchannels hstep⟩,
    (mem_upTo hblock).mpr ⟨Nat.dvd_sub (Nat.dvd_mul_right _ _) dvd_rfl, Nat.sub_lt hstep hblock⟩⟩

/-- **When `blocked_gemm_test` fills its instruction buffer exactly** and stays inside its operands:
the assertions only ask for `block ∣ channels`, and nothing looks at the range of `int`.  The
assertions on the sizes of the blocks are not needed. -/
theorem fillsBuffer_iff (hbatch : 0 < p.batch) (hchannels : 0 < p.channels) (hblock : 0 < p.block)
    (hvt : 1 ≤ p.virtualThreads) (h : p.Divides cfg) :
    p.FillsBuffer cfg ↔ p.block * p.virtualThreads ∣ p.channels ∧ p.IntRange cfg := by
  constructor
  · intro hfills
    obtain ⟨hinsFits, hlength⟩ := IntExpr.eval_eq_some_iff.mp hfills.insSize_eq
    have hdvd := (length_insns_iff hbatch hchannels hblock hvt h).mp hlength.symm
    have hsize := fun mem => (IntExpr.eval_eq_some_iff.mp (hfills.operandSize_eq mem)).1
    refine ⟨hdvd, ?_⟩
    constructor
    case insSize_lt => exact ((insSize_fits_iff hblock h hbatch hchannels).mp hinsFits).2
    case rows_lt => exact fits_inpSizeExpr.mp (hsize .inp)
    case columns_lt => exact fits_wgtSizeExpr.mp (hsize .wgt)
    case lastWgt_lt =>
      obtain ⟨hj, hk, hl⟩ := last_step hblock hvt hchannels hdvd
      have hi : 0 ∈ upTo p.batch p.block := (mem_upTo hblock).mpr ⟨Nat.dvd_zero _, hbatch⟩
      have hbase := hfills.wgtBase_eq _ hi _ hj _ hk _ hl
      have hlast := fits_wgtOffsetExpr.mp (IntExpr.eval_eq_some_iff.mp hbase).1
      have hstep : p.block * p.virtualThreads ≤ p.channels := Nat.le_of_dvd hchannels hdvd
      have hblockStep : p.block ≤ p.block * p.virtualThreads := Nat.le_mul_of_pos_right _ hvt
      have hcolumn : p.channels - p.block * p.virtualThreads
          + (p.block * p.virtualThreads - p.block) = p.channels - p.block := by omega
      rwa [hcolumn] at hlast
    case uops_lt =>
      intro hcomp
      have huop := fits_uopSizeExpr.mp (hsize .uop)
      rw [hcomp] at huop
      exact huop.2
  · rintro ⟨hdvd, hrange⟩
    have hlength := (length_insns_iff hbatch hchannels hblock hvt h).mpr hdvd
    constructor
    case insSize_eq =>
      refine IntExpr.eval_eq_some_iff.mpr ⟨?_, hlength.symm⟩
      refine (insSize_fits_iff hblock h hbatch hchannels).mpr ⟨?_, hrange.insSize_lt⟩
      have hblocks : p.batch / p.block ≤ p.batch / cfg.vtaBatch :=
        Nat.div_le_div_left (Nat.le_of_dvd hblock h.vtaBatch_dvd) cfg.vtaBatch_pos
      exact (Nat.mul_le_mul_right _ hblocks).trans_lt hrange.rows_lt
    case operandSize_eq =>
      intro mem
      exact IntExpr.eval_eq_some_iff.mpr
        ⟨operandSize_fits hblock h hrange hbatch hchannels hdvd mem, value_operandSizeExpr mem⟩
    case outBase_eq =>
      intro i hi j hj
      obtain ⟨-, hj⟩ := tile_fits hblock h.block_dvd_channels hj
      have hfits : (p.outOffsetExpr cfg i j).Fits :=
        fits_outOffsetExpr.mpr (rows_add_lt hblock h hrange hi (by omega))
      exact ⟨IntExpr.eval_eq_some_iff.mpr ⟨hfits, rfl⟩, IntExpr.eval_eq_some_iff.mpr ⟨hfits, rfl⟩⟩
    case wgtBase_eq =>
      intro i hi j hj k hk l hl
      obtain ⟨-, hj⟩ := tile_fits hblock h.block_dvd_channels hj
      obtain ⟨-, hkl⟩ := step_fits hblock hvt hdvd hk hl
      exact IntExpr.eval_eq_some_iff.mpr ⟨fits_wgtOffsetExpr.mpr (wgt_add_lt hrange hj hkl), rfl⟩
    case inpBase_eq =>
      intro i hi k hk l hl
      obtain ⟨-, hkl⟩ := step_fits hblock hvt hdvd hk hl
      have hfits : (p.inpOffsetExpr cfg i k l).Fits :=
        fits_inpOffsetExpr.mpr (rows_add_lt hblock h hrange hi (by omega))
      exact IntExpr.eval_eq_some_iff.mpr ⟨hfits, rfl⟩
    case dram_lt => exact fun m hm => transfer_dram_lt hblock hvt h hdvd hm
    case channels_le => exact fun k hk l hl => (step_fits hblock hvt hdvd hk hl).2

/-- Two threads on one channel block: the loop takes two steps where one was counted. -/
def oneBlockGemm : BlockedGemm where
  batch := 16
  channels := 16
  block := 16
  uopCompression := true
  virtualThreads := 2

lemma oneBlockGemm_asserts : oneBlockGemm.Asserts config16 := by
  constructor <;> decide

/-- `oneBlockGemm` writes ten instructions into a buffer of seven. -/
theorem not_fillsBuffer : ¬ ∀ (cfg : VtaConfig) (p : BlockedGemm), 0 < p.batch → 0 < p.channels →
    0 < p.block → 1 ≤ p.virtualThreads → p.Asserts cfg → p.FillsBuffer cfg := by
  intro hall
  have hfills := hall config16 oneBlockGemm (by decide) (by decide) (by decide) (by decide)
    oneBlockGemm_asserts
  exact absurd hfills.insSize_eq (by decide)

/-- `twoThreadGemm` fills its buffer. -/
theorem fillsBuffer_twoThread : twoThreadGemm.FillsBuffer config16 :=
  (fillsBuffer_iff (by decide) (by decide) (by decide) (by decide) (by decide)).mpr
    ⟨by decide, by constructor <;> decide⟩

/-! ## On-chip slots -/

lemma mem_tileTriples {batch inFeat outFeat r c x : ℕ} :
    (r, c, x) ∈ tileTriples batch inFeat outFeat ↔ r < batch ∧ c < outFeat ∧ x < inFeat := by
  simp [tileTriples]

/-- The micro-op buffer holds the micro-ops of one thread, or of two. -/
lemma length_uops : (p.uops cfg).length = threadUopCount (p.block / cfg.vtaBatch)
    (p.block / cfg.vtaBlockIn) (p.block / cfg.vtaBlockOut) p.uopCompression
      * (if 1 < p.virtualThreads then 2 else 1) := by
  rw [uops, getGEMMUops, List.length_append, length_threadUops]
  by_cases hvt : 1 < p.virtualThreads
  · simp only [hvt, decide_true, if_true, length_threadUops]
    ring
  · simp [hvt]

/-- The end of the region a thread loads a block into. -/
lemma region_end {a b : ℕ} (ha : a ∣ p.block) (hb : b ∣ p.block) (e : ℕ) :
    p.block * e / a * p.block / b + p.block / b * (p.block / a)
      = (e + 1) * (p.block / b * p.block / a) := by
  rw [Nat.mul_comm p.block e, p.sramOffset_eq ha hb, Nat.mul_div_assoc _ ha]
  ring

/-- The last thread's first loads. -/
lemma last_loads (hblock : 0 < p.block) (hbatch : 0 < p.batch) (hchannels : 0 < p.channels)
    (hvt : 1 ≤ p.virtualThreads) :
    .mem (p.inpInsn cfg 0 0 (p.block * (p.virtualThreads - 1))) ∈ p.insns cfg ∧
    .mem (p.wgtInsn cfg 0 0 0 (p.block * (p.virtualThreads - 1))) ∈ p.insns cfg := by
  have hzero : ∀ {n step : ℕ}, 0 < step → 0 < n → 0 ∈ upTo n step := by
    intro n step hstep hn
    exact (mem_upTo hstep).mpr ⟨Nat.dvd_zero step, hn⟩
  have hl : p.block * (p.virtualThreads - 1) ∈ upTo (p.block * p.virtualThreads) p.block :=
    (mem_upTo hblock).mpr ⟨Nat.dvd_mul_right _ _, Nat.mul_lt_mul_of_pos_left (by omega) hblock⟩
  have hk : 0 ∈ upTo p.inFeat (p.block * p.virtualThreads) :=
    hzero (Nat.mul_pos hblock hvt) hchannels
  have hstep : ∀ m, m = p.wgtInsn cfg 0 0 0 (p.block * (p.virtualThreads - 1)) ∨
      m = p.inpInsn cfg 0 0 (p.block * (p.virtualThreads - 1)) → .mem m ∈ p.insns cfg := by
    intro m hm
    exact mem_insns.mpr (.inr ⟨0, hzero hblock hbatch, 0, hzero hblock hchannels,
      .inr (.inl ⟨0, hk, _, hl, hm⟩)⟩)
  exact ⟨hstep _ (.inr rfl), hstep _ (.inl rfl)⟩

section OnChip

variable (hblock : 0 < p.block) (h : p.Asserts cfg)
include hblock h

/-- With at most two threads whose blocks fit together, every slot of a transfer exists. -/
lemma transfer_slot_lt (hinp : p.virtualThreads * p.inpBlockSize cfg ≤ cfg.inpBuffDepth)
    (hwgt : p.virtualThreads * p.wgtBlockSize cfg ≤ cfg.wgtBuffDepth) {m : MemInsn}
    (hm : .mem m ∈ p.insns cfg) : ∀ mv ∈ m.moves, mv.1 < cfg.depth m.memoryType := by
  have hin := h.blockIn_dvd
  have hout := h.blockOut_dvd
  have houtBlock : p.block / cfg.vtaBatch * (p.block / cfg.vtaBlockOut) ≤ cfg.accBuffDepth := by
    rw [← Nat.mul_div_assoc _ hout]
    exact h.outBlockSize_le
  intro mv hmv
  have hslot := MemInsn.slot_lt hmv
  rcases mem_insns.mp hm with rfl | ⟨i, hi, j, hj, rfl | ⟨k, hk, l, hl, rfl | rfl⟩ | rfl⟩
  · refine hslot.trans_le ?_
    show 0 + 1 * p.uopSize cfg ≤ cfg.uopBuffDepth
    rw [Nat.zero_add, Nat.one_mul]
    exact h.uopSize_le
  · exact hslot.trans_le ((Nat.zero_add _).trans_le houtBlock)
  · obtain ⟨⟨e, rfl⟩, hl⟩ := (mem_upTo hblock).mp hl
    have he : e + 1 ≤ p.virtualThreads := Nat.lt_of_mul_lt_mul_left hl
    calc mv.1 < _ := hslot
      _ = (e + 1) * (p.block / cfg.vtaBlockOut * p.block / cfg.vtaBlockIn) := region_end hin hout e
      _ = (e + 1) * p.wgtBlockSize cfg := by
          rw [wgtBlockSize, Nat.mul_div_assoc _ hin, Nat.mul_div_assoc _ hout, Nat.mul_comm (p.block / _)]
      _ ≤ p.virtualThreads * p.wgtBlockSize cfg := Nat.mul_le_mul_right _ he
      _ ≤ cfg.wgtBuffDepth := hwgt
  · obtain ⟨⟨e, rfl⟩, hl⟩ := (mem_upTo hblock).mp hl
    have he : e + 1 ≤ p.virtualThreads := Nat.lt_of_mul_lt_mul_left hl
    calc mv.1 < _ := hslot
      _ = (e + 1) * p.inpBlockSize cfg := region_end hin h.vtaBatch_dvd e
      _ ≤ p.virtualThreads * p.inpBlockSize cfg := Nat.mul_le_mul_right _ he
      _ ≤ cfg.inpBuffDepth := hinp
  · exact hslot.trans_le ((Nat.zero_add _).trans_le houtBlock)

/-- The slots a GEMM computes on are slots its tile was loaded to. -/
lemma gemm_slot_lt (hvt : p.virtualThreads = 1 ∨ p.virtualThreads = 2)
    (hinp : p.virtualThreads * p.inpBlockSize cfg ≤ cfg.inpBuffDepth)
    (hwgt : p.virtualThreads * p.wgtBlockSize cfg ≤ cfg.wgtBuffDepth) {g : GemInsn}
    (hg : .gem g ∈ p.insns cfg) {u : Uop} (hu : u ∈ g.expand (p.uops cfg)) :
    u.dstIdx < cfg.accBuffDepth ∧ u.srcIdx < cfg.inpBuffDepth ∧ u.wgtIdx < cfg.wgtBuffDepth := by
  have hslot : ∀ m : MemInsn, .mem m ∈ p.insns cfg → ∀ y < m.ySize, ∀ x < m.xSize,
      m.slot y x < cfg.depth m.memoryType := by
    intro m hm y hy x hx
    refine transfer_slot_lt hblock h hinp hwgt hm (m.slot y x, m.dramBase + y * m.xStride + x) ?_
    simp only [MemInsn.moves, List.mem_flatMap, List.mem_map, List.mem_range]
    exact ⟨y, hy, x, hx, rfl⟩
  rcases gem_mem_insns.mp hg with ⟨i, hi, j, hj, k, hk, l, hl, rfl⟩ | rfl
  · have htriple := (expand_gemmInsn hblock h hvt hl (i := i) (j := j) (k := k)).mem_iff.mp hu
    obtain ⟨⟨r, c, x⟩, ht, rfl⟩ := List.mem_map.mp htriple
    obtain ⟨hr, hc, hx⟩ := mem_tileTriples.mp ht
    have hacc : .mem (p.accInsn cfg i j) ∈ p.insns cfg :=
      mem_insns.mpr (.inr ⟨i, hi, j, hj, .inl rfl⟩)
    have hload : .mem (p.inpInsn cfg i k l) ∈ p.insns cfg :=
      mem_insns.mpr (.inr ⟨i, hi, j, hj, .inr (.inl ⟨k, hk, l, hl, .inr rfl⟩)⟩)
    have hweight : .mem (p.wgtInsn cfg i j k l) ∈ p.insns cfg :=
      mem_insns.mpr (.inr ⟨i, hi, j, hj, .inr (.inl ⟨k, hk, l, hl, .inl rfl⟩)⟩)
    exact ⟨hslot _ hacc r hr c hc, hslot _ hload r hr x hx, hslot _ hweight c hc x hx⟩
  · -- the finish instruction does not turn
    simp [GemInsn.expand, getFinishInsn] at hu

/-- The micro-ops a GEMM takes are those of its thread. -/
lemma gemm_uop_lt (hvt : p.virtualThreads = 1 ∨ p.virtualThreads = 2) {g : GemInsn}
    (hg : .gem g ∈ p.insns cfg) {s : ℕ} (hs : s < g.uopEnd) : s < (p.uops cfg).length := by
  rcases gem_mem_insns.mp hg with ⟨i, -, j, -, k, -, l, hl, rfl⟩ | rfl
  · obtain ⟨⟨e, rfl⟩, hllt⟩ := (mem_upTo hblock).mp hl
    have he : e + 1 ≤ p.virtualThreads := Nat.lt_of_mul_lt_mul_left hllt
    set count := threadUopCount (p.block / cfg.vtaBatch) (p.block / cfg.vtaBlockIn)
      (p.block / cfg.vtaBlockOut) p.uopCompression with hcount
    have hoffset : p.block * e / p.block * p.uopSize cfg / p.virtualThreads = e * count := by
      rw [Nat.mul_div_cancel_left _ hblock, uopSize_eq h, ← Nat.mul_assoc,
        Nat.mul_div_cancel _ (by omega)]
    have hend : (p.gemmInsn cfg i j k (p.block * e)).uopEnd = e * count + count := by
      rw [gemmInsn, hoffset, hcount, threadUopCount]
      cases p.uopCompression <;> rfl
    have hthreads : (if 1 < p.virtualThreads then 2 else 1) = p.virtualThreads := by
      split_ifs <;> omega
    rw [length_uops, ← hcount, hthreads]
    calc s < e * count + count := hs.trans_eq hend
      _ = count * (e + 1) := by ring
      _ ≤ count * p.virtualThreads := Nat.mul_le_mul_left _ he
  · simp [getFinishInsn] at hs

/-- A thread needs at least one micro-op. -/
lemma threadUopCount_pos : 0 < threadUopCount (p.block / cfg.vtaBatch) (p.block / cfg.vtaBlockIn)
    (p.block / cfg.vtaBlockOut) p.uopCompression := by
  have hbat := Nat.div_pos (Nat.le_of_dvd hblock h.vtaBatch_dvd) cfg.vtaBatch_pos
  have hin := Nat.div_pos (Nat.le_of_dvd hblock h.blockIn_dvd) cfg.vtaBlockIn_pos
  have hout := Nat.div_pos (Nat.le_of_dvd hblock h.blockOut_dvd) cfg.vtaBlockOut_pos
  rw [threadUopCount]
  split_ifs
  · exact hbat
  · exact Nat.mul_pos (Nat.mul_pos hbat hin) hout

/-- The micro-op buffer serves two threads. -/
lemma virtualThreads_le (huops : p.uopSize cfg ≤ (p.uops cfg).length) : p.virtualThreads ≤ 2 := by
  have hcount := threadUopCount_pos hblock h
  rw [uopSize_eq h, length_uops] at huops
  have hle := Nat.le_of_mul_le_mul_left huops hcount
  split_ifs at hle <;> omega

/-- The blocks of all threads together fill the input memory and the weight memory. -/
lemma regions_le (hbatch : 0 < p.batch) (hchannels : 0 < p.channels) (hvt : 1 ≤ p.virtualThreads)
    (hslots : ∀ m, .mem m ∈ p.insns cfg → ∀ mv ∈ m.moves, mv.1 < cfg.depth m.memoryType) :
    p.virtualThreads * p.inpBlockSize cfg ≤ cfg.inpBuffDepth ∧
    p.virtualThreads * p.wgtBlockSize cfg ≤ cfg.wgtBuffDepth := by
  have hin := h.blockIn_dvd
  have hout := h.blockOut_dvd
  have hbat := h.vtaBatch_dvd
  have hpos : ∀ {b}, 0 < b → b ∣ p.block → 0 < p.block / b := by
    intro b hb hdvd
    exact Nat.div_pos (Nat.le_of_dvd hblock hdvd) hb
  obtain ⟨hload, hweight⟩ := last_loads hblock hbatch hchannels hvt
  have hthread : p.virtualThreads - 1 + 1 = p.virtualThreads := by omega
  constructor
  · obtain ⟨mv, hmv, hlast⟩ := MemInsn.exists_last
      (m := p.inpInsn cfg 0 0 (p.block * (p.virtualThreads - 1)))
      (hpos cfg.vtaBatch_pos hbat) (hpos cfg.vtaBlockIn_pos hin)
    have hend : mv.1 + 1 = (p.virtualThreads - 1 + 1) * p.inpBlockSize cfg :=
      hlast.trans (region_end hin hbat _)
    rw [hthread] at hend
    exact hend ▸ hslots _ hload mv hmv
  · obtain ⟨mv, hmv, hlast⟩ := MemInsn.exists_last
      (m := p.wgtInsn cfg 0 0 0 (p.block * (p.virtualThreads - 1)))
      (hpos cfg.vtaBlockOut_pos hout) (hpos cfg.vtaBlockIn_pos hin)
    have hend : mv.1 + 1
        = (p.virtualThreads - 1 + 1) * (p.block / cfg.vtaBlockOut * p.block / cfg.vtaBlockIn) :=
      hlast.trans (region_end hin hout _)
    have hwgt : p.wgtBlockSize cfg = p.block / cfg.vtaBlockOut * p.block / cfg.vtaBlockIn := by
      rw [wgtBlockSize, Nat.mul_div_assoc _ hin, Nat.mul_div_assoc _ hout, Nat.mul_comm]
    rw [hthread, ← hwgt] at hend
    exact hend ▸ hslots _ hweight mv hmv

end OnChip

/-- **When every on-chip slot exists**: the assertions bound the blocks of one thread, and the
micro-op buffer serves two. -/
theorem staysOnChip_iff (hbatch : 0 < p.batch) (hchannels : 0 < p.channels) (hblock : 0 < p.block)
    (hvt : 1 ≤ p.virtualThreads) (h : p.Asserts cfg) :
    p.StaysOnChip cfg ↔ p.virtualThreads ≤ 2 ∧
      p.virtualThreads * p.inpBlockSize cfg ≤ cfg.inpBuffDepth ∧
      p.virtualThreads * p.wgtBlockSize cfg ≤ cfg.wgtBuffDepth := by
  constructor
  · intro hstays
    exact ⟨virtualThreads_le hblock h hstays.uopSize_le,
      regions_le hblock h hbatch hchannels hvt hstays.transfer_lt⟩
  · rintro ⟨hthreads, hinp, hwgt⟩
    have hvt' : p.virtualThreads = 1 ∨ p.virtualThreads = 2 := by omega
    have huops : p.uopSize cfg ≤ (p.uops cfg).length := by
      rw [uopSize_eq h, length_uops]
      refine Nat.mul_le_mul_left _ ?_
      split_ifs <;> omega
    exact {
      transfer_lt := fun m hm => transfer_slot_lt hblock h hinp hwgt hm
      gemm_lt := fun g hg u hu => gemm_slot_lt hblock h hvt' hinp hwgt hg hu
      uop_lt := fun g hg s _ hs => gemm_uop_lt hblock h hvt' hg hs
      uopSize_le := huops }

/-- Two threads with blocks of which one fits the input memory. -/
def wideGemm : BlockedGemm where
  batch := 176
  channels := 352
  block := 176
  uopCompression := true
  virtualThreads := 2

/-- The second thread of `wideGemm` loads its input block to slots 1936 to 3871 of 2048. -/
theorem not_staysOnChip : ¬ ∀ (cfg : VtaConfig) (p : BlockedGemm), 0 < p.batch → 0 < p.channels →
    0 < p.block → 1 ≤ p.virtualThreads → p.Asserts cfg → p.StaysOnChip cfg := by
  intro hall
  have hasserts : wideGemm.Asserts config16 := by constructor <;> decide
  have hstays := hall config16 wideGemm (by decide) (by decide) (by decide) (by decide) hasserts
  have hregions := regions_le (by decide) hasserts (by decide) (by decide) (by decide)
    hstays.transfer_lt
  exact absurd hregions.1 (by decide)

/-- `twoThreadGemm` stays on chip. -/
theorem staysOnChip_twoThread : twoThreadGemm.StaysOnChip config16 :=
  (staysOnChip_iff (by decide) (by decide) (by decide) (by decide)
    (by constructor <;> decide)).mpr (by decide)

end BlockedGemm

end ThreeLaSim
