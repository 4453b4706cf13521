import Mathlib.Order.Interval.Set.LinearOrder
import ThreeLaSim.Vta.BufferBounds

/-!
# The output buffer: allocated, dumped, stored

After a run each test prints the bytes of its output buffer, and the printed bytes become the
expected output of the simulation.  Three sizes are computed separately, the first two as `int`s: that
of the buffer, that of the printing loop, and the union of the ranges the stores of the stream write.

* **`storedBytes_eq`** — each test stores the bytes of its output blocks, from the start of the
  buffer on.
* **`dumpFaithful_iff`** — when the printed bytes are the stored ones.
-/

namespace ThreeLaSim

open LoopNest

/-- `VTA_OUT_ELEM_BYTES`: the bytes of an output block, with elements of one byte. -/
def VtaConfig.outElemBytes (cfg : VtaConfig) : ℕ := cfg.vtaBatch * cfg.vtaBlockOut

/-- `VTA_INP_ELEM_BYTES`: the bytes of an input block, with elements of one byte. -/
def VtaConfig.inpElemBytes (cfg : VtaConfig) : ℕ := cfg.vtaBatch * cfg.vtaBlockIn

lemma VtaConfig.outElemBytes_pos (cfg : VtaConfig) : 0 < cfg.outElemBytes :=
  Nat.mul_pos cfg.vtaBatch_pos cfg.vtaBlockOut_pos

/-- One of the three tests, with its parameters. -/
inductive VtaTest
  | alu (p : AluTest)
  | gemm (p : GemmTest)
  | blocked (p : BlockedGemm)

namespace VtaTest

variable (cfg : VtaConfig)

/-- The parameters a test accepts; `blocked_gemm_test` with one thread. -/
def Asserts : VtaTest → Prop
  | .alu p => p.Asserts cfg
  | .gemm p => p.Asserts cfg
  | .blocked p => p.Asserts cfg ∧ p.virtualThreads = 1

/-- The part of the assertions that is about divisibility. -/
def Divides : VtaTest → Prop
  | .alu p => p.Divides cfg
  | .gemm p => p.Divides cfg
  | .blocked p => p.Divides cfg ∧ p.virtualThreads = 1

/-- The instruction stream of a test. -/
def insns : VtaTest → List Insn
  | .alu p => p.insns cfg
  | .gemm p => p.insns cfg
  | .blocked p => p.insns cfg

/-- The size `output_buf` is allocated with. -/
def outputBufSize : VtaTest → ℕ
  | .alu p => cfg.outElemBytes * p.batch * p.txSize cfg * p.inputSets
  | .gemm p => cfg.outElemBytes * p.outSize cfg
  | .blocked p => cfg.inpElemBytes * p.outSize cfg

/-- The bound of the loop that prints `output_buf`. -/
def dumpBound : VtaTest → ℕ
  | .alu p => cfg.outElemBytes * p.batch * p.txSize cfg * p.inputSets
  | .gemm p => cfg.inpElemBytes * p.outSize cfg
  | .blocked p => cfg.inpElemBytes * p.outSize cfg

/-! The two sizes, as they are computed. -/

def outputBufSizeExpr : VtaTest → IntExpr
  | .alu p => ↑cfg.outElemBytes * ↑p.batch * ↑(p.txSize cfg) * ↑p.inputSets
  | .gemm p => ↑cfg.outElemBytes * p.outSizeExpr cfg
  | .blocked p => ↑cfg.inpElemBytes * p.outSizeExpr cfg

def dumpBoundExpr : VtaTest → IntExpr
  | .alu p => ↑cfg.outElemBytes * ↑p.batch * ↑(p.txSize cfg) * ↑p.inputSets
  | .gemm p => ↑cfg.inpElemBytes * p.outSizeExpr cfg
  | .blocked p => ↑cfg.inpElemBytes * p.outSizeExpr cfg

/-- The DRAM offsets of the stores are computed. -/
def StoresComputed : VtaTest → Prop
  | .alu p => ∀ b ∈ upTo p.batch cfg.vtaBatch,
      (↑b / ↑cfg.vtaBatch * ↑(p.txSize cfg) : IntExpr).eval = some (p.storeInsn cfg b).dramBase
  | .gemm p => (p.outSizeExpr cfg).eval = some (p.outSize cfg)
  | .blocked p => ∀ i ∈ upTo p.batch p.block, ∀ j ∈ upTo p.outFeat p.block,
      (p.outOffsetExpr cfg i j).eval = some (p.storeInsn cfg i j).dramBase

/-- The byte indices in the result lines. -/
def dumped (t : VtaTest) : List ℕ := List.range (t.dumpBound cfg)

/-- The blocks a stream stores. -/
def storedBlocks (insns : List Insn) : Set ℕ :=
  {d | ∃ m, .mem m ∈ insns ∧ m.opcode = .store ∧ ∃ mv ∈ m.moves, mv.2 = d}

/-- The bytes a stream stores: block `d` is `VTA_OUT_ELEM_BYTES` bytes from
`d * VTA_OUT_ELEM_BYTES` on. -/
def storedBytes (insns : List Insn) : Set ℕ :=
  {o | ∃ d ∈ storedBlocks insns, d * cfg.outElemBytes ≤ o ∧ o < d * cfg.outElemBytes + cfg.outElemBytes}

/-- The printed bytes are the stored ones, and the buffer holds them.  This takes that the sizes and
the offsets are computed at all: where an `int` overflows, the test is undefined. -/
structure DumpFaithful (t : VtaTest) : Prop where
  outputBufSize_eq : (t.outputBufSizeExpr cfg).eval = some (t.outputBufSize cfg)
  dumpBound_eq : (t.dumpBoundExpr cfg).eval = some (t.dumpBound cfg)
  stores : t.StoresComputed cfg
  dumped_eq : {o | o ∈ t.dumped cfg} = storedBytes cfg (t.insns cfg)
  dumped_lt : ∀ o ∈ t.dumped cfg, o < t.outputBufSize cfg

/-- The number of blocks a test stores. -/
def storedCount : VtaTest → ℕ
  | .alu p => p.batch / cfg.vtaBatch * p.txSize cfg
  | .gemm p => p.outSize cfg
  | .blocked p => p.outSize cfg

variable {cfg}

/-! ## What is stored -/

/-- A block of the rectangle of a store is stored. -/
lemma mem_storedBlocks {insns : List Insn} {m : MemInsn} (hm : .mem m ∈ insns)
    (hop : m.opcode = .store) {y x d : ℕ} (hy : y < m.ySize) (hx : x < m.xSize)
    (hd : m.dramBase + y * m.xStride + x = d) : d ∈ storedBlocks insns := by
  refine ⟨m, hm, hop, (m.slot y x, m.dramBase + y * m.xStride + x), ?_, hd⟩
  simp only [MemInsn.moves, List.mem_flatMap, List.mem_map, List.mem_range]
  exact ⟨y, hy, x, hx, rfl⟩

/-- The stores of `alu_test` cover one row of blocks after the other. -/
lemma storedBlocks_alu {p : AluTest} (h : p.Divides cfg) :
    storedBlocks (p.insns cfg) = Set.Iio (p.batch / cfg.vtaBatch * p.txSize cfg) := by
  have hbat := Nat.dvd_of_mod_eq_zero h.batch_mod
  have hmem : ∀ m : MemInsn, .mem m ∈ p.insns cfg ∧ m.opcode = .store ↔
      ∃ b ∈ upTo p.batch cfg.vtaBatch, m = p.storeInsn cfg b := by
    intro m
    simp only [AluTest.insns, List.mem_append, List.mem_flatMap, List.mem_cons, List.not_mem_nil,
      Insn.mem.injEq, reduceCtorEq, or_false, false_or]
    constructor
    · rintro ⟨rfl | ⟨b, hb, rfl | rfl⟩, hop⟩
      · cases hop
      · cases hop
      · exact ⟨b, hb, rfl⟩
    · rintro ⟨b, hb, rfl⟩
      exact ⟨.inr ⟨b, hb, .inr rfl⟩, rfl⟩
  ext d
  rw [Set.mem_Iio]
  constructor
  · rintro ⟨m, hm, hop, mv, hmv, rfl⟩
    obtain ⟨b, hb, rfl⟩ := (hmem m).mp ⟨hm, hop⟩
    obtain ⟨hdvd, hlt⟩ := (mem_upTo cfg.vtaBatch_pos).mp hb
    have hrow : b / cfg.vtaBatch < p.batch / cfg.vtaBatch := Nat.div_lt_div_of_lt_of_dvd hbat hlt
    exact MemInsn.dram_lt rfl rfl (by exact hrow) (Nat.zero_add _).le hmv
  · intro hd
    have htx : 0 < p.txSize cfg := Nat.pos_of_ne_zero fun h0 => by simp [h0] at hd
    have hrow : d / p.txSize cfg < p.batch / cfg.vtaBatch :=
      Nat.div_lt_of_lt_mul (by rwa [Nat.mul_comm])
    have hb : d / p.txSize cfg * cfg.vtaBatch ∈ upTo p.batch cfg.vtaBatch :=
      mul_mem_upTo cfg.vtaBatch_pos hbat hrow
    obtain ⟨hm, hop⟩ := (hmem _).mpr ⟨_, hb, rfl⟩
    refine mem_storedBlocks hm hop Nat.one_pos (Nat.mod_lt d htx) ?_
    simp only [AluTest.storeInsn, get2DLoadStoreInsn, Nat.zero_mul, Nat.add_zero,
      Nat.mul_div_cancel _ cfg.vtaBatch_pos, Nat.div_add_mod']

/-- The store of `gemm_test` covers the output at once. -/
lemma storedBlocks_gemm (p : GemmTest) : storedBlocks (p.insns cfg) = Set.Iio (p.outSize cfg) := by
  ext d
  rw [Set.mem_Iio]
  constructor
  · rintro ⟨m, hm, hop, mv, hmv, rfl⟩
    simp only [GemmTest.insns, List.mem_cons, List.not_mem_nil, Insn.mem.injEq, reduceCtorEq,
      or_false, false_or] at hm
    rcases hm with rfl | rfl | rfl | rfl | rfl <;> try cases hop
    have hbase : 0 = 0 * p.outSize cfg + 0 := by rw [Nat.zero_mul]
    have hlt := @MemInsn.dram_lt _ 1 (p.outSize cfg) 0 0 hbase rfl le_rfl (Nat.zero_add _).le _ hmv
    exact hlt.trans_eq (Nat.one_mul _)
  · intro hd
    have hm : .mem (get1DLoadStoreInsn .store .out 0 0 (p.outSize cfg) ⟨true, false, true, false⟩)
        ∈ p.insns cfg := by
      simp [GemmTest.insns]
    refine mem_storedBlocks hm rfl Nat.one_pos hd ?_
    simp [get1DLoadStoreInsn]

/-- Without a block nothing is stored. -/
lemma storedBlocks_noBlock {p : BlockedGemm} (h : p.Divides cfg) (hblock : p.block = 0) :
    storedBlocks (p.insns cfg) = Set.Iio (p.outSize cfg) := by
  have hbatch : p.batch = 0 := Nat.eq_zero_of_zero_dvd (hblock ▸ h.block_dvd_batch)
  have hnone : upTo p.batch p.block = [] := by rw [hbatch, hblock]; rfl
  have hsize : p.outSize cfg = 0 := by simp [BlockedGemm.outSize, hbatch]
  ext d
  rw [hsize, Set.mem_Iio]
  simp only [storedBlocks, Set.mem_ofPred_eq, Nat.not_lt_zero, iff_false]
  rintro ⟨m, hm, hop, -⟩
  rcases BlockedGemm.mem_insns.mp hm with rfl | ⟨i, hi, -⟩
  · cases hop
  · simp [hnone] at hi

/-- The stores of `blocked_gemm_test` cover the output tile by tile. -/
lemma storedBlocks_blocked {p : BlockedGemm} (h : p.Divides cfg) (hvt : p.virtualThreads = 1) :
    storedBlocks (p.insns cfg) = Set.Iio (p.outSize cfg) := by
  rcases Nat.eq_zero_or_pos p.block with hzero | hblock
  · exact storedBlocks_noBlock h hzero
  have hout := h.blockOut_dvd
  have hbat := h.vtaBatch_dvd
  have hchan := h.block_dvd_channels
  have hsize : p.outSize cfg = p.batch / cfg.vtaBatch * (p.channels / cfg.vtaBlockOut) :=
    Nat.mul_div_assoc _ (hout.trans hchan)
  ext d
  rw [Set.mem_Iio]
  constructor
  · rintro ⟨m, hm, hop, mv, hmv, rfl⟩
    have hlt := BlockedGemm.transfer_dram_lt hblock (by omega) h (by rwa [hvt, Nat.mul_one]) hm mv hmv
    rcases BlockedGemm.mem_insns.mp hm with rfl | ⟨i, -, j, -, rfl | ⟨k, -, l, -, rfl | rfl⟩ | rfl⟩
    · cases hop
    · cases hop
    · cases hop
    · cases hop
    · exact hlt
  · intro hd
    rw [hsize] at hd
    -- the tile of the block, and the block inside the tile
    set cols := p.channels / cfg.vtaBlockOut with hcols
    set th := p.block / cfg.vtaBatch with hth
    set tw := p.block / cfg.vtaBlockOut with htw
    have hcolsPos : 0 < cols := Nat.pos_of_ne_zero fun h0 => by simp [h0] at hd
    have hthPos : 0 < th := Nat.div_pos (Nat.le_of_dvd hblock hbat) cfg.vtaBatch_pos
    have htwPos : 0 < tw := Nat.div_pos (Nat.le_of_dvd hblock hout) cfg.vtaBlockOut_pos
    have hrow : d / cols < p.batch / cfg.vtaBatch := Nat.div_lt_of_lt_mul (by rwa [Nat.mul_comm])
    have hcol : d % cols < cols := Nat.mod_lt d hcolsPos
    have hm : .mem (p.storeInsn cfg (d / cols / th * p.block) (d % cols / tw * p.block))
        ∈ p.insns cfg :=
      BlockedGemm.mem_insns.mpr (.inr ⟨_, tile_mem_upTo hblock hbat h.block_dvd_batch hrow, _,
        tile_mem_upTo hblock hout hchan hcol, .inr (.inr rfl)⟩)
    refine mem_storedBlocks hm rfl (Nat.mod_lt (d / cols) hthPos) (Nat.mod_lt (d % cols) htwPos) ?_
    have hbase : (p.storeInsn cfg (d / cols / th * p.block) (d % cols / tw * p.block)).dramBase
        = d / cols / th * th * cols + d % cols / tw * tw := by
      refine (blockOffset_eq cfg.vtaBlockOut_pos (hout.trans hchan) _ _).trans ?_
      rw [Nat.mul_div_assoc _ hbat, Nat.mul_div_assoc _ hout]
    rw [hbase]
    calc d / cols / th * th * cols + d % cols / tw * tw + d / cols % th * cols + d % cols % tw
        = (d / cols / th * th + d / cols % th) * cols + (d % cols / tw * tw + d % cols % tw) := by
          ring
      _ = d := by rw [Nat.div_add_mod', Nat.div_add_mod', Nat.div_add_mod']

/-- **Each test stores the bytes of its output blocks**, from the start of the buffer on. -/
theorem storedBytes_eq {t : VtaTest} (h : t.Divides cfg) :
    storedBytes cfg (t.insns cfg) = Set.Iio (t.storedCount cfg * cfg.outElemBytes) := by
  have hblocks : storedBlocks (t.insns cfg) = Set.Iio (t.storedCount cfg) := by
    cases t with
    | alu p => exact storedBlocks_alu h
    | gemm p => exact storedBlocks_gemm p
    | blocked p => exact storedBlocks_blocked h.1 h.2
  have hpos := cfg.outElemBytes_pos
  ext o
  simp only [storedBytes, hblocks, Set.mem_ofPred_eq, Set.mem_Iio]
  constructor
  · rintro ⟨d, hd, -, ho⟩
    calc o < d * cfg.outElemBytes + cfg.outElemBytes := ho
      _ = (d + 1) * cfg.outElemBytes := by ring
      _ ≤ t.storedCount cfg * cfg.outElemBytes := Nat.mul_le_mul_right _ hd
  · intro ho
    refine ⟨o / cfg.outElemBytes, Nat.div_lt_of_lt_mul (by rwa [Nat.mul_comm]),
      Nat.div_mul_le_self _ _, ?_⟩
    have hmod := Nat.mod_lt o hpos
    have hdiv := Nat.div_add_mod' o cfg.outElemBytes
    omega

/-! ## When the dump is faithful -/

/-- The printed bytes are the stored ones and lie in the buffer when the bound of the dump is what is
stored, and the buffer is as large. -/
lemma dumped_iff {t : VtaTest} (h : t.Divides cfg) :
    ({o | o ∈ t.dumped cfg} = storedBytes cfg (t.insns cfg) ∧
      ∀ o ∈ t.dumped cfg, o < t.outputBufSize cfg) ↔
    t.dumpBound cfg = t.storedCount cfg * cfg.outElemBytes ∧
      t.dumpBound cfg ≤ t.outputBufSize cfg := by
  have hdumped : {o | o ∈ t.dumped cfg} = Set.Iio (t.dumpBound cfg) := by
    ext o
    simp [dumped]
  constructor
  · rintro ⟨heq, hlt⟩
    rw [hdumped, storedBytes_eq h] at heq
    refine ⟨Set.Iio_injective heq, ?_⟩
    by_contra hgt
    have hlast := hlt (t.outputBufSize cfg) (List.mem_range.mpr (Nat.lt_of_not_le hgt))
    exact Nat.lt_irrefl _ hlast
  · rintro ⟨heq, hle⟩
    refine ⟨?_, ?_⟩
    · rw [hdumped, storedBytes_eq h, heq]
    · intro o ho
      exact (List.mem_range.mp ho).trans_le hle

variable (cfg) in
/-- The parameters for which the bound of the dump is right: there is nothing to store, or the
constants used for the dump agree with those of a store. -/
def DumpFits : VtaTest → Prop
  | .alu p => p.useImm = true ∧ cfg.vtaBatch = 1 ∨ p.batch = 0 ∨ p.vectorSize = 0
  | .gemm p => cfg.vtaBlockIn = cfg.vtaBlockOut ∨ p.batch = 0 ∨ p.outChannels = 0
  | .blocked p => cfg.vtaBlockIn = cfg.vtaBlockOut ∨ p.batch = 0 ∨ p.channels = 0

variable (cfg) in
/-- The parameters for which the sizes are `int`s, if the bound is right. -/
def IntRange : VtaTest → Prop
  | .alu p => cfg.outElemBytes * p.batch < 2 ^ 31 ∧ p.batch * p.vectorSize < 2 ^ 31
  | .gemm p => p.batch * p.outChannels < 2 ^ 31
  | .blocked p => p.batch * p.channels < 2 ^ 31

/-- A number of whole blocks is zero when the number of elements is. -/
lemma div_eq_zero_of_dvd {a b : ℕ} (hb : 0 < b) (h : b ∣ a) : a / b = 0 ↔ a = 0 := by
  obtain ⟨q, rfl⟩ := h
  rw [Nat.mul_div_cancel_left _ hb]
  simp [hb.ne']

/-- Input bytes against output bytes, for `n` blocks. -/
lemma inpElemBytes_mul_eq {n : ℕ} : cfg.inpElemBytes * n = n * cfg.outElemBytes ↔
    cfg.vtaBlockIn = cfg.vtaBlockOut ∨ n = 0 := by
  rw [Nat.mul_comm n, mul_eq_mul_right_iff, VtaConfig.inpElemBytes, VtaConfig.outElemBytes,
    Nat.mul_right_inj cfg.vtaBatch_pos.ne']

/-- Without elements there are no blocks. -/
lemma outSize_eq_zero {batch channels : ℕ} (hbatch : cfg.vtaBatch ∣ batch)
    (hchannels : cfg.vtaBlockOut ∣ channels) :
    batch / cfg.vtaBatch * channels / cfg.vtaBlockOut = 0 ↔ batch = 0 ∨ channels = 0 := by
  rw [Nat.mul_div_assoc _ hchannels, Nat.mul_eq_zero, div_eq_zero_of_dvd cfg.vtaBatch_pos hbatch,
    div_eq_zero_of_dvd cfg.vtaBlockOut_pos hchannels]

/-- The bound of `alu_test` counts the input: all sets, and every row of the batch. -/
lemma dumpBound_alu {p : AluTest} (h : p.Divides cfg) :
    cfg.outElemBytes * p.batch * p.txSize cfg * p.inputSets
        = p.batch / cfg.vtaBatch * p.txSize cfg * cfg.outElemBytes ↔
      p.useImm = true ∧ cfg.vtaBatch = 1 ∨ p.batch = 0 ∨ p.vectorSize = 0 := by
  obtain ⟨q, hq⟩ := Nat.dvd_of_mod_eq_zero h.batch_mod
  have htx : p.txSize cfg = 0 ↔ p.vectorSize = 0 :=
    div_eq_zero_of_dvd cfg.vtaBlockOut_pos (Nat.dvd_of_mod_eq_zero h.vectorSize_mod)
  have hbatch : p.batch = 0 ↔ q = 0 := by
    rw [hq]
    simp [cfg.vtaBatch_pos.ne']
  have hsets : cfg.vtaBatch * p.inputSets = 1 ↔ p.useImm = true ∧ cfg.vtaBatch = 1 := by
    cases himm : p.useImm with
    | true => simp [AluTest.inputSets, himm]
    | false =>
        simp only [AluTest.inputSets, himm, Bool.false_eq_true, if_false, false_and, iff_false]
        omega
  have hbound : cfg.outElemBytes * p.batch * p.txSize cfg * p.inputSets
      = cfg.outElemBytes * q * p.txSize cfg * (cfg.vtaBatch * p.inputSets) := by
    rw [hq]
    ring
  have hstored : p.batch / cfg.vtaBatch * p.txSize cfg * cfg.outElemBytes
      = cfg.outElemBytes * q * p.txSize cfg * 1 := by
    rw [hq, Nat.mul_div_cancel_left _ cfg.vtaBatch_pos]
    ring
  rw [hbound, hstored, mul_eq_mul_left_iff, hsets, hbatch, ← htx]
  simp [cfg.outElemBytes_pos.ne']

/-- The bound of the dump is what is stored exactly for the parameters that fit. -/
lemma dumpFits_iff {t : VtaTest} (h : t.Divides cfg) :
    (t.dumpBound cfg = t.storedCount cfg * cfg.outElemBytes ∧
      t.dumpBound cfg ≤ t.outputBufSize cfg) ↔ t.DumpFits cfg := by
  cases t with
  | alu p =>
      simp only [dumpBound, outputBufSize, storedCount, DumpFits, le_refl, and_true]
      exact dumpBound_alu h
  | gemm p =>
      have hzero := @outSize_eq_zero cfg _ _ (Nat.dvd_of_mod_eq_zero h.batch_mod)
        (Nat.dvd_of_mod_eq_zero h.outChannels_mod)
      simp only [dumpBound, outputBufSize, storedCount, DumpFits]
      rw [inpElemBytes_mul_eq, GemmTest.outSize, hzero]
      -- the buffer is large enough whenever the sizes agree
      refine and_iff_left_of_imp ?_
      rintro (hblock | hnone)
      · rw [VtaConfig.inpElemBytes, VtaConfig.outElemBytes, hblock]
      · rw [hzero.mpr hnone, Nat.mul_zero]
        exact Nat.zero_le _
  | blocked p =>
      have hzero := @outSize_eq_zero cfg _ _ (h.1.vtaBatch_dvd.trans h.1.block_dvd_batch)
        (h.1.blockOut_dvd.trans h.1.block_dvd_channels)
      simp only [dumpBound, outputBufSize, storedCount, DumpFits, le_refl, and_true]
      rw [inpElemBytes_mul_eq, BlockedGemm.outSize, BlockedGemm.outFeat, hzero]

/-! ## When the sizes are `int`s -/

/-- The bytes of an output. -/
lemma outElemBytes_mul {batch channels : ℕ} (hbatch : cfg.vtaBatch ∣ batch)
    (hchannels : cfg.vtaBlockOut ∣ channels) :
    cfg.outElemBytes * (batch / cfg.vtaBatch * channels / cfg.vtaBlockOut) = batch * channels := by
  obtain ⟨m, rfl⟩ := hbatch
  obtain ⟨n, rfl⟩ := hchannels
  rw [Nat.mul_div_cancel_left _ cfg.vtaBatch_pos, Nat.mul_left_comm m,
    Nat.mul_div_cancel_left _ cfg.vtaBlockOut_pos, VtaConfig.outElemBytes]
  ring

/-- The sizes of a GEMM test. -/
lemma fits_outBytes {batch channels bytes : ℕ} (hbatch : cfg.vtaBatch ∣ batch)
    (hchannels : cfg.vtaBlockOut ∣ channels)
    (hbytes : bytes = cfg.outElemBytes ∨ batch = 0 ∨ channels = 0) :
    (↑bytes * (↑batch / ↑cfg.vtaBatch * ↑channels / ↑cfg.vtaBlockOut) : IntExpr).Fits ↔
      batch * channels < 2 ^ 31 := by
  simp only [IntExpr.fits_mul, IntExpr.fits_div, IntExpr.fits_var, IntExpr.value_mul,
    IntExpr.value_div, IntExpr.value_var, cfg.vtaBatch_pos, cfg.vtaBlockOut_pos, true_and, and_true]
  rcases hbytes with rfl | rfl | rfl
  · rw [outElemBytes_mul hbatch hchannels, and_iff_right_iff_imp]
    exact (Nat.mul_le_mul_right _ (Nat.div_le_self _ _)).trans_lt
  · simp
  · simp

/-- The sizes of `alu_test`. -/
lemma fits_aluBytes {p : AluTest} (h : p.Divides cfg)
    (hfits : p.useImm = true ∧ cfg.vtaBatch = 1 ∨ p.batch = 0 ∨ p.vectorSize = 0) :
    (↑cfg.outElemBytes * ↑p.batch * ↑(p.txSize cfg) * ↑p.inputSets : IntExpr).Fits ↔
      cfg.outElemBytes * p.batch < 2 ^ 31 ∧ p.batch * p.vectorSize < 2 ^ 31 := by
  simp only [IntExpr.fits_mul, IntExpr.fits_var, IntExpr.value_mul, IntExpr.value_var, true_and]
  rcases hfits with ⟨himm, hone⟩ | hbatch | hsize
  · obtain ⟨n, hn⟩ := Nat.dvd_of_mod_eq_zero h.vectorSize_mod
    have hbytes : cfg.outElemBytes * p.batch * p.txSize cfg = p.batch * p.vectorSize := by
      rw [VtaConfig.outElemBytes, hone, AluTest.txSize, hn, Nat.mul_div_cancel_left _ cfg.vtaBlockOut_pos]
      ring
    rw [hbytes, AluTest.inputSets, if_pos himm, Nat.mul_one, and_assoc, and_self]
  · simp [hbatch]
  · simp [hsize, AluTest.txSize]

/-- The two sizes are `int`s exactly in the range. -/
lemma sizes_fit_iff {t : VtaTest} (h : t.Divides cfg) (hfits : t.DumpFits cfg) :
    (t.outputBufSizeExpr cfg).Fits ∧ (t.dumpBoundExpr cfg).Fits ↔ t.IntRange cfg := by
  have hbytes : ∀ {batch channels : ℕ}, cfg.vtaBlockIn = cfg.vtaBlockOut ∨ batch = 0 ∨ channels = 0 →
      cfg.inpElemBytes = cfg.outElemBytes ∨ batch = 0 ∨ channels = 0 := by
    intro batch channels hor
    refine hor.imp_left fun heq => ?_
    rw [VtaConfig.inpElemBytes, VtaConfig.outElemBytes, heq]
  cases t with
  | alu p =>
      rw [outputBufSizeExpr, dumpBoundExpr, and_self]
      exact fits_aluBytes h hfits
  | gemm p =>
      have hbatch := Nat.dvd_of_mod_eq_zero h.batch_mod
      have hchannels := Nat.dvd_of_mod_eq_zero h.outChannels_mod
      rw [outputBufSizeExpr, dumpBoundExpr, GemmTest.outSizeExpr,
        fits_outBytes hbatch hchannels (.inl rfl), fits_outBytes hbatch hchannels (hbytes hfits),
        and_self, IntRange]
  | blocked p =>
      have hbatch := h.1.vtaBatch_dvd.trans h.1.block_dvd_batch
      have hchannels := h.1.blockOut_dvd.trans h.1.block_dvd_channels
      rw [outputBufSizeExpr, dumpBoundExpr, and_self, BlockedGemm.outSizeExpr, BlockedGemm.outFeat,
        fits_outBytes hbatch hchannels (hbytes hfits), IntRange]

/-- In the range, the stores are computed. -/
lemma stores_of_range {t : VtaTest} (h : t.Divides cfg) (hrange : t.IntRange cfg) :
    t.StoresComputed cfg := by
  have hrows : ∀ {batch channels : ℕ}, batch * channels < 2 ^ 31 →
      batch / cfg.vtaBatch * channels < 2 ^ 31 :=
    fun hlt => (Nat.mul_le_mul_right _ (Nat.div_le_self _ _)).trans_lt hlt
  cases t with
  | alu p =>
      intro b hb
      obtain ⟨-, hlt⟩ := (mem_upTo cfg.vtaBatch_pos).mp hb
      refine IntExpr.eval_eq_some_iff.mpr ⟨?_, rfl⟩
      simp only [IntExpr.fits_mul, IntExpr.fits_div, IntExpr.fits_var, IntExpr.value_div,
        IntExpr.value_var, true_and, cfg.vtaBatch_pos]
      calc b / cfg.vtaBatch * p.txSize cfg
          ≤ p.batch * p.vectorSize :=
            Nat.mul_le_mul ((Nat.div_le_self _ _).trans hlt.le) (Nat.div_le_self _ _)
        _ < 2 ^ 31 := hrange.2
  | gemm p =>
      refine IntExpr.eval_eq_some_iff.mpr ⟨?_, rfl⟩
      simpa [GemmTest.outSizeExpr, cfg.vtaBatch_pos, cfg.vtaBlockOut_pos] using hrows hrange
  | blocked p =>
      intro i hi j hj
      have hblock : 0 < p.block := by
        refine Nat.pos_of_ne_zero fun hzero => ?_
        have hbatch : p.batch = 0 := Nat.eq_zero_of_zero_dvd (hzero ▸ h.1.block_dvd_batch)
        simp [upTo, hbatch, hzero] at hi
      obtain ⟨-, hrow⟩ := BlockedGemm.tile_fits hblock h.1.block_dvd_batch hi
      obtain ⟨-, hcol⟩ := BlockedGemm.tile_fits hblock h.1.block_dvd_channels hj
      refine IntExpr.eval_eq_some_iff.mpr ⟨BlockedGemm.fits_outOffsetExpr.mpr ?_, rfl⟩
      have hdiv : i / cfg.vtaBatch < p.batch / cfg.vtaBatch :=
        Nat.div_lt_div_of_lt_of_dvd (h.1.vtaBatch_dvd.trans h.1.block_dvd_batch) (by omega)
      exact (mul_add_lt hdiv (by omega)).trans (hrows hrange)

/-- **When the printed bytes are the stored ones**, for every test and every configuration. -/
theorem dumpFaithful_iff (t : VtaTest) (h : t.Divides cfg) :
    t.DumpFaithful cfg ↔ t.DumpFits cfg ∧ t.IntRange cfg := by
  have hvalue : (t.outputBufSizeExpr cfg).value = t.outputBufSize cfg ∧
      (t.dumpBoundExpr cfg).value = t.dumpBound cfg := by
    cases t with
    | alu p | gemm p | blocked p => exact ⟨rfl, rfl⟩
  constructor
  · intro hfaithful
    have hfits := (dumpFits_iff h).mp
      ((dumped_iff h).mp ⟨hfaithful.dumped_eq, hfaithful.dumped_lt⟩)
    exact ⟨hfits, (sizes_fit_iff h hfits).mp
      ⟨(IntExpr.eval_eq_some_iff.mp hfaithful.outputBufSize_eq).1,
        (IntExpr.eval_eq_some_iff.mp hfaithful.dumpBound_eq).1⟩⟩
  · rintro ⟨hfits, hrange⟩
    obtain ⟨hbuf, hbound⟩ := (sizes_fit_iff h hfits).mpr hrange
    obtain ⟨hstored, hinside⟩ := (dumped_iff h).mpr ((dumpFits_iff h).mpr hfits)
    exact {
      outputBufSize_eq := IntExpr.eval_eq_some_iff.mpr ⟨hbuf, hvalue.1⟩
      dumpBound_eq := IntExpr.eval_eq_some_iff.mpr ⟨hbound, hvalue.2⟩
      stores := stores_of_range h hrange
      dumped_eq := hstored
      dumped_lt := hinside }

/-- An addition of two vectors. -/
def addTwo : AluTest where
  opcode := .add
  useImm := false
  batch := 1
  vectorSize := 16
  uopCompression := true
  immediate := fun _ => 0

/-- `addTwo` stores 16 bytes and prints 32. -/
theorem not_dumpFaithful : ¬ ∀ (cfg : VtaConfig) (t : VtaTest), t.Asserts cfg → t.DumpFaithful cfg := by
  intro hall
  have hasserts : addTwo.Asserts config16 := by constructor <;> decide
  have hfaithful := hall config16 (.alu addTwo) hasserts
  have hbound := (dumped_iff (t := .alu addTwo) hasserts.toDivides).mp
    ⟨hfaithful.dumped_eq, hfaithful.dumped_lt⟩
  exact absurd hbound.1 (by decide)

/-- With an immediate the dump is faithful. -/
theorem dumpFaithful_imm :
    (VtaTest.alu { addTwo with useImm := true }).DumpFaithful config16 :=
  (dumpFaithful_iff _ (by constructor <;> decide)).mpr ⟨.inl ⟨rfl, rfl⟩, by decide, by decide⟩

end VtaTest

end ThreeLaSim
