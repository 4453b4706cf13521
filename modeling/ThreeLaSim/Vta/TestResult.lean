import ThreeLaSim.Vta.BlockedRun
import ThreeLaSim.Vta.OutputDump

/-!
# The verdict of the GEMM tests

Each test unpacks its output buffer and counts the entries that differ from a reference computed in
plain loops.  `verdict` says what the count finds on any buffer; on a machine with the laws of
`Machine` it finds nothing, whatever the modules do in between.

* **`verdict`** — a test is successful exactly when the machine left the reference in DRAM.
* **`BlockedGemm.Valid.blockedGemm_successful`** — `blocked_gemm_test` is.
* **`GemmTest.gemmTest_successful`** — `gemm_test` is.
-/

namespace ThreeLaSim

open TokenNet LoopNest Footprint

/-! ## The output buffer -/

namespace Memory

variable {cfg : VtaConfig} (σ : Memory cfg)

/-- A byte of the output buffer. -/
def outByte (z : ℕ) : BitVec 8 :=
  σ (.dram .out (z / cfg.outElemBytes))
    ⟨z % cfg.outElemBytes / cfg.vtaBlockOut, Nat.div_lt_of_lt_mul (by
      rw [Nat.mul_comm]
      exact Nat.mod_lt z cfg.outElemBytes_pos)⟩
    ⟨z % cfg.outElemBytes % cfg.vtaBlockOut, Nat.mod_lt _ cfg.vtaBlockOut_pos⟩

/-- `output_buf`, allocated with `bytes` bytes, as 32-bit words. -/
def outputBuf (bytes : ℕ) : List ℕ :=
  packedWords 8 4 (fun z => (σ.outByte z).toInt) bytes

lemma length_outputBuf (bytes : ℕ) : (σ.outputBuf bytes).length = bytes / 4 := by
  rw [outputBuf, packedWords, List.length_map, List.length_range]

/-- An entry of an output block is a byte of the buffer. -/
lemma outByte_mul_add (b : ℕ) (r : Fin cfg.vtaBatch) (c : Fin cfg.vtaBlockOut) :
    σ.outByte (b * cfg.outElemBytes + (r * cfg.vtaBlockOut + c)) = σ (.dram .out b) r c :=
  blockEntry_mk cfg.vtaBatch_pos cfg.vtaBlockOut_pos (fun b => σ (.dram .out b)) b r c

/-- The blocks of the output buffer are those of DRAM. -/
lemma bufferBlock_outputBuf (hpack : PackConfig cfg) {bytes b : ℕ} (hbytes : 4 ∣ bytes)
    (hb : (b + 1) * cfg.outElemBytes ≤ bytes) :
    bufferBlock 8 32 cfg.vtaBatch cfg.vtaBlockOut (σ.outputBuf bytes) b = σ (.dram .out b) := by
  funext r c
  have hcell : r * cfg.vtaBlockOut + c < cfg.outElemBytes := mul_add_lt r.isLt c.isLt
  have hlt : b * cfg.outElemBytes + (r * cfg.vtaBlockOut + c) < bytes := by
    rw [Nat.succ_mul] at hb
    omega
  rw [← σ.outByte_mul_add, ← ofNat_toInt_emod (σ.outByte _)]
  exact congrArg _ (hpack.out.packedElem_packedWords _ hlt hbytes)

end Memory

/-! ## The verdict -/

/-- The correctness check: entries that differ from the reference. -/
def countErrors (ySize xSize : ℕ) (outputsRef : ℕ → ℕ → BitVec 8) (outputs : ℕ → ℕ → ℕ) : ℕ :=
  ((List.range ySize).flatMap fun i => (List.range xSize).map fun j => (i, j)).foldl
    (fun err c => if outputsRef c.1 c.2 ≠ .ofNat 8 (outputs c.1 c.2) then err + 1 else err) 0

/-- What a test returns: 0 if it is successful, -1 if there are errors. -/
def testResult (ySize xSize : ℕ) (outputsRef : ℕ → ℕ → BitVec 8) (outputs : ℕ → ℕ → ℕ) : ℤ :=
  if countErrors ySize xSize outputsRef outputs = 0 then 0 else -1

/-- The error count goes up by one for each differing entry. -/
lemma countErrors_foldl {α : Type*} (differs : α → Prop) [DecidablePred differs] (cells : List α) :
    ∀ err, cells.foldl (fun err c => if differs c then err + 1 else err) err
      = err + cells.countP fun c => differs c := by
  induction cells with
  | nil =>
      intro err
      rfl
  | cons c cells ih =>
      intro err
      rw [List.foldl_cons, ih, List.countP_cons]
      by_cases hc : differs c
      · simp only [hc, if_true, decide_true]
        omega
      · simp [hc]

/-- A test is successful when every entry is right, and only then. -/
lemma testResult_eq_zero_iff {ySize xSize : ℕ} {outputsRef : ℕ → ℕ → BitVec 8}
    {outputs : ℕ → ℕ → ℕ} : testResult ySize xSize outputsRef outputs = 0 ↔
      ∀ y x, y < ySize → x < xSize → BitVec.ofNat 8 (outputs y x) = outputsRef y x := by
  have hcount : testResult ySize xSize outputsRef outputs = 0
      ↔ countErrors ySize xSize outputsRef outputs = 0 := by
    rw [testResult]
    split_ifs with h <;> simp [h]
  have hfold := countErrors_foldl fun c : ℕ × ℕ => outputsRef c.1 c.2 ≠ .ofNat 8 (outputs c.1 c.2)
  rw [hcount, countErrors, hfold, Nat.zero_add, List.countP_eq_zero]
  simp only [List.mem_flatMap, List.mem_map, List.mem_range, decide_eq_true_eq, not_not]
  constructor
  · intro h y x hy hx
    exact (h (y, x) ⟨y, hy, x, hx, rfl⟩).symm
  · rintro h _ ⟨y, hy, x, hx, rfl⟩
    exact (h y x hy hx).symm

/-- **What a test finds**: unpacking the output buffer succeeds, and the test returns 0 when DRAM
holds the blocks of the reference, otherwise -1. -/
theorem verdict {cfg : VtaConfig} (hpack : PackConfig cfg) (σ : Memory cfg) {ySize xSize bytes : ℕ}
    (hy : cfg.vtaBatch ∣ ySize) (hx : cfg.vtaBlockOut ∣ xSize) (hbytes : 4 ∣ bytes)
    (hlen : ySize / cfg.vtaBatch * (xSize / cfg.vtaBlockOut) * cfg.outElemBytes ≤ bytes)
    (dst : ℕ → ℕ → ℕ) (outputsRef : ℕ → ℕ → BitVec 8) :
    ∃ r, (unpackBuffer 8 32 dst (σ.outputBuf bytes) ySize xSize cfg.vtaBatch cfg.vtaBlockOut).map
        (testResult ySize xSize outputsRef) = some r ∧ (r = 0 ∨ r = -1) ∧
      (r = 0 ↔ ∀ y < ySize / cfg.vtaBatch, ∀ x < xSize / cfg.vtaBlockOut,
        σ (.dram .out (y * (xSize / cfg.vtaBlockOut) + x)) = matrixBlock _ _ outputsRef y x) := by
  have hblocks : ∀ {y x}, y < ySize / cfg.vtaBatch → x < xSize / cfg.vtaBlockOut →
      bufferBlock 8 32 _ _ (σ.outputBuf bytes) (y * (xSize / cfg.vtaBlockOut) + x)
        = σ (.dram .out (y * (xSize / cfg.vtaBlockOut) + x)) := by
    intro y x hyy hxx
    refine σ.bufferBlock_outputBuf hpack hbytes (le_trans ?_ hlen)
    exact Nat.mul_le_mul_right _ (Nat.succ_le_of_lt (mul_add_lt hyy hxx))
  have hwords : ySize / cfg.vtaBatch * (xSize / cfg.vtaBlockOut)
      * wordsPerBlock 8 32 cfg.vtaBatch cfg.vtaBlockOut ≤ (σ.outputBuf bytes).length := by
    rw [σ.length_outputBuf, wordsPerBlock, ← Nat.mul_div_assoc _ hpack.out.ratio_dvd]
    exact Nat.div_le_div_right hlen
  obtain ⟨out, hunpack, hout⟩ := hpack.out.unpackBuffer_bufferBlock cfg.vtaBatch_pos
    cfg.vtaBlockOut_pos hy hx hwords dst
  refine ⟨_, by rw [hunpack, Option.map_some], ?_, ?_⟩
  · rw [testResult]
    split_ifs
    · exact .inl rfl
    · exact .inr rfl
  rw [testResult_eq_zero_iff]
  constructor
  · intro h y hyy x hxx
    rw [← hblocks hyy hxx]
    funext r c
    -- the entry of the matrix
    have hrow : y * cfg.vtaBatch + r < ySize := by
      rw [← Nat.div_mul_cancel hy]
      exact mul_add_lt hyy r.isLt
    have hcol : x * cfg.vtaBlockOut + c < xSize := by
      rw [← Nat.div_mul_cancel hx]
      exact mul_add_lt hxx c.isLt
    have hentry := h _ _ hrow hcol
    rw [hout _ _ hrow hcol] at hentry
    obtain ⟨hdiv, hmod⟩ := mul_add_div_mod (a := y) r.isLt
    obtain ⟨hdiv', hmod'⟩ := mul_add_div_mod (a := x) c.isLt
    simp only [hdiv, hmod, hdiv', hmod'] at hentry
    exact hentry
  · intro h y x hyy hxx
    have hrow : y / cfg.vtaBatch < ySize / cfg.vtaBatch :=
      Nat.div_lt_div_of_lt_of_dvd hy hyy
    have hcol : x / cfg.vtaBlockOut < xSize / cfg.vtaBlockOut :=
      Nat.div_lt_div_of_lt_of_dvd hx hxx
    rw [hout y x hyy hxx, hblocks hrow hcol, h _ hrow _ hcol, matrixBlock]
    simp only [Nat.div_add_mod']

/-! ## `blocked_gemm_test` -/

/-- The output is whole blocks, and the output buffer has room for it. -/
lemma BlockedGemm.Valid.outputBuf_fits {cfg : VtaConfig} {p : BlockedGemm} (h : p.Valid cfg)
    (hpack : PackConfig cfg) (hsize : cfg.vtaBlockOut ≤ cfg.vtaBlockIn) :
    cfg.vtaBatch ∣ p.batch ∧ cfg.vtaBlockOut ∣ p.outFeat ∧
      4 ∣ (VtaTest.blocked p).outputBufSize cfg ∧
      p.batch / cfg.vtaBatch * (p.outFeat / cfg.vtaBlockOut) * cfg.outElemBytes
        ≤ (VtaTest.blocked p).outputBufSize cfg := by
  have hout : cfg.vtaBlockOut ∣ p.outFeat :=
    h.asserts.blockOut_dvd.trans h.asserts.block_dvd_channels
  refine ⟨h.asserts.vtaBatch_dvd.trans h.asserts.block_dvd_batch, hout,
    hpack.inp.ratio_dvd.trans (Nat.dvd_mul_right _ _), ?_⟩
  rw [← Nat.mul_div_assoc _ hout, Nat.mul_comm]
  exact Nat.mul_le_mul_right _ (Nat.mul_le_mul_left _ hsize)

/-- **`blocked_gemm_test` is successful** on every machine, however the three modules are interleaved,
for every input, weight and bias matrix; its output buffer has the size of input blocks, so these
must not be smaller than output blocks. -/
theorem BlockedGemm.Valid.blockedGemm_successful {cfg : VtaConfig} {p : BlockedGemm} (h : p.Valid cfg)
    (hfit : p.FitsChip cfg) (hpack : PackConfig cfg) (hblock : cfg.vtaBlockIn ≤ 63)
    (hsize : cfg.vtaBlockOut ≤ cfg.vtaBlockIn) (M : Machine cfg) {inputs weights : ℕ → ℕ → BitVec 8}
    {biases : ℕ → ℕ → BitVec 32} {σ : Memory cfg}
    (hσ : GemmPrepared cfg p.batch p.inFeat p.outFeat (p.uops cfg) inputs weights biases σ)
    {t : List Insn} {s : State Module DepQueue} (hrun : vtaNet.Run (p.insns cfg) t s)
    (hs : vtaNet.Complete (p.insns cfg) s) (dst : ℕ → ℕ → ℕ) :
    (unpackBuffer 8 32 dst ((runAll M.exec t σ).outputBuf ((VtaTest.blocked p).outputBufSize cfg))
      p.batch p.outFeat cfg.vtaBatch cfg.vtaBlockOut).map
        (testResult p.batch p.outFeat (gemmOutputsRef p.inFeat inputs weights biases)) = some 0 := by
  obtain ⟨hbatch, hout, hbytes, hlen⟩ := h.outputBuf_fits hpack hsize
  obtain ⟨r, hr, -, hiff⟩ := verdict hpack (runAll M.exec t σ) hbatch hout hbytes hlen dst
    (gemmOutputsRef p.inFeat inputs weights biases)
  rw [hr, hiff.mpr]
  intro y hy x hx
  rw [h.runAll_insns hfit M hrun hs hσ.uop]
  exact h.outputs_of_runAll hfit hpack M hblock hσ hy hx

/-- A run of two threads that ends with success. -/
theorem BlockedGemm.blockedGemm_successful_twoThread : ∃ t s σ outputs,
    vtaNet.Run (twoThreadGemm.insns config16) t s ∧ vtaNet.Complete (twoThreadGemm.insns config16) s ∧
      unpackBuffer 8 32 (fun _ _ => 0) ((runAll (flatExec config16) t σ).outputBuf 512) 16 32 1 16
        = some outputs ∧
      testResult 16 32 (gemmOutputsRef 32 (fun i k => .ofNat 8 (i * k)) (fun j k => .ofNat 8 (j + k))
        fun i _ => .ofNat 32 i) outputs = 0 := by
  obtain ⟨s, hrun, hs⟩ := (Produced.blocked twoThreadGemm twoThreadGemm_valid).replay.exists_run
  have hprepared := gemmPrepared_called config16 16 32 32 (twoThreadGemm.uops config16)
    (fun i k => .ofNat 8 (i * k)) (fun j k => .ofNat 8 (j + k)) fun i _ => .ofNat 32 i
  have hresult := twoThreadGemm_valid.blockedGemm_successful ⟨by decide, by decide⟩ packConfig16
    (by decide) le_rfl (flatMachine config16) hprepared hrun hs fun _ _ => 0
  obtain ⟨outputs, hout, hzero⟩ := Option.map_eq_some_iff.mp hresult
  exact ⟨_, s, _, outputs, hrun, hs, hout, hzero⟩

/-! ## `gemm_test` -/

namespace GemmTest

variable {cfg : VtaConfig} {p : GemmTest}

variable (cfg p) in
/-- The micro-op buffer of the test. -/
def uops : List Uop :=
  getGEMMUops (p.batch / cfg.vtaBatch) (p.inChannels / cfg.vtaBlockIn)
    (p.outChannels / cfg.vtaBlockOut) p.uopCompression false

variable (h : p.Asserts cfg)
include h

/-- The sizes of the transfers, in rows and columns of blocks. -/
lemma sizes_eq :
    p.inpSize cfg = p.batch / cfg.vtaBatch * (p.inChannels / cfg.vtaBlockIn) ∧
    p.wgtSize cfg = p.outChannels / cfg.vtaBlockOut * (p.inChannels / cfg.vtaBlockIn) ∧
    p.outSize cfg = p.batch / cfg.vtaBatch * (p.outChannels / cfg.vtaBlockOut) ∧
    p.uopSize cfg = threadUopCount (p.batch / cfg.vtaBatch) (p.inChannels / cfg.vtaBlockIn)
      (p.outChannels / cfg.vtaBlockOut) p.uopCompression := by
  have hin := Nat.dvd_of_mod_eq_zero h.inChannels_mod
  have hout := Nat.dvd_of_mod_eq_zero h.outChannels_mod
  refine ⟨Nat.mul_div_assoc _ hin, ?_, Nat.mul_div_assoc _ hout, ?_⟩
  · rw [wgtSize, Nat.mul_div_assoc _ hout, Nat.mul_comm]
  · rw [uopSize, threadUopCount, Nat.mul_div_assoc _ hin, Nat.mul_div_assoc _ hout]

lemma length_uops : (p.uops cfg).length = p.uopSize cfg := by
  rw [uops, getGEMMUops, (sizes_eq h).2.2.2, List.length_append, length_threadUops]
  exact Nat.add_zero _

variable (cfg p) in
omit h in
/-- The GEMM instruction, on the slots of the whole matrices. -/
lemma expand_gemm (dep : DepFlags) :
    ((getGEMMInsn 0 (p.batch / cfg.vtaBatch) (p.inChannels / cfg.vtaBlockIn)
        (p.outChannels / cfg.vtaBlockOut) p.uopCompression dep).expand (p.uops cfg)).Perm
      ((tileTriples (p.batch / cfg.vtaBatch) (p.inChannels / cfg.vtaBlockIn)
          (p.outChannels / cfg.vtaBlockOut)).map fun (r, c, x) =>
        ⟨r * (p.outChannels / cfg.vtaBlockOut) + c, r * (p.inChannels / cfg.vtaBlockIn) + x,
          c * (p.inChannels / cfg.vtaBlockIn) + x⟩) := by
  have hperm := expand_getGEMMInsn (p.batch / cfg.vtaBatch) (p.inChannels / cfg.vtaBlockIn)
    (p.outChannels / cfg.vtaBlockOut) p.uopCompression false dep (e := 0) (.inl rfl)
  simp only [Nat.zero_mul] at hperm
  refine hperm.trans (List.Perm.of_eq (List.map_congr_left ?_))
  rintro ⟨r, c, x⟩ -
  simp only [tripleSlots, Nat.zero_add]

/-- The slots of the GEMM instruction exist. -/
lemma gemm_onChip (dep : DepFlags) :
    (getGEMMInsn 0 (p.batch / cfg.vtaBatch) (p.inChannels / cfg.vtaBlockIn)
      (p.outChannels / cfg.vtaBlockOut) p.uopCompression dep).OnChip cfg (p.uops cfg) where
  uopEnd_le := by
    have hle := h.uopSize_le
    rw [(sizes_eq h).2.2.2, threadUopCount] at hle
    rw [getGEMMInsn]
    split_ifs <;> simp_all
  slots_lt u hu := by
    obtain ⟨hinp, hwgt, hout, -⟩ := sizes_eq h
    obtain ⟨⟨r, c, x⟩, ht, rfl⟩ := List.mem_map.mp ((expand_gemm cfg p dep).mem_iff.mp hu)
    obtain ⟨hr, hc, hx⟩ := BlockedGemm.mem_tileTriples.mp ht
    refine ⟨(mul_add_lt hr hc).trans_le ?_, (mul_add_lt hr hx).trans_le ?_,
      (mul_add_lt hc hx).trans_le ?_⟩
    · exact hout.symm.trans_le h.outSize_le
    · exact hinp.symm.trans_le h.inpSize_le
    · exact hwgt.symm.trans_le h.wgtSize_le

/-- The outputs of the run: after the whole buffer, DRAM holds the blocks of the reference. -/
theorem outputs_of_runAll (hin : 0 < p.inChannels) (hpack : PackConfig cfg)
    (hblock : cfg.vtaBlockIn ≤ 63) (M : Machine cfg) {inputs weights : ℕ → ℕ → BitVec 8}
    {biases : ℕ → ℕ → BitVec 32} {σ : Memory cfg}
    (hσ : GemmPrepared cfg p.batch p.inChannels p.outChannels (p.uops cfg) inputs weights biases σ)
    {r c : ℕ} (hr : r < p.batch / cfg.vtaBatch) (hc : c < p.outChannels / cfg.vtaBlockOut) :
    runAll M.exec (p.insns cfg) σ (.dram .out (r * (p.outChannels / cfg.vtaBlockOut) + c))
      = matrixBlock _ _ (gemmOutputsRef p.inChannels inputs weights biases) r c := by
  obtain ⟨hinpSize, hwgtSize, houtSize, -⟩ := sizes_eq h
  have hbatch := Nat.dvd_of_mod_eq_zero h.batch_mod
  have hinDvd := Nat.dvd_of_mod_eq_zero h.inChannels_mod
  have houtDvd := Nat.dvd_of_mod_eq_zero h.outChannels_mod
  have hX : 0 < p.inChannels / cfg.vtaBlockIn :=
    Nat.div_pos (Nat.le_of_dvd hin hinDvd) cfg.vtaBlockIn_pos
  set g := getGEMMInsn 0 (p.batch / cfg.vtaBatch) (p.inChannels / cfg.vtaBlockIn)
    (p.outChannels / cfg.vtaBlockOut) p.uopCompression ⟨true, false, false, true⟩ with hg
  -- the memory after the four loads
  set rows : List (MemId × ℕ × DepFlags) := [(.uop, p.uopSize cfg, ⟨false, false, false, false⟩),
    (.acc, p.outSize cfg, ⟨false, false, true, false⟩),
    (.wgt, p.wgtSize cfg, ⟨false, true, false, false⟩),
    (.inp, p.inpSize cfg, ⟨false, false, false, true⟩)] with hrows
  have hdepth : ∀ row ∈ rows, row.2.1 ≤ cfg.depth row.1 := by
    simp [hrows, h.uopSize_le, h.outSize_le, h.wgtSize_le, h.inpSize_le, VtaConfig.depth]
  obtain ⟨-, hloaded, -⟩ := M.runAll_loadRows σ (by simp [hrows]) hdepth rfl
  set σ₄ := runAll M.exec
    (rows.map fun row => .mem (get1DLoadStoreInsn .load row.1 0 0 row.2.1 row.2.2)) σ with hσ₄
  simp only [hrows, List.forall_mem_cons] at hloaded
  obtain ⟨huopRow, haccRow, hwgtRow, hinpRow, -⟩ := hloaded
  have huops : HoldsUops (p.uops cfg) σ₄ := fun n hn =>
    (huopRow n (length_uops h ▸ hn)).trans (hσ.uop n hn)
  have hinp : ∀ r x, r < p.batch / cfg.vtaBatch → x < p.inChannels / cfg.vtaBlockIn →
      σ₄ (.sram .inp (r * (p.inChannels / cfg.vtaBlockIn) + x)) = matrixBlock _ _ inputs r x := by
    intro r x hr hx
    refine (hinpRow _ (hinpSize ▸ mul_add_lt hr hx)).trans ?_
    exact hσ.inp_block hpack hbatch hinDvd hr hx
  have hwgt : ∀ c x, c < p.outChannels / cfg.vtaBlockOut → x < p.inChannels / cfg.vtaBlockIn →
      σ₄ (.sram .wgt (c * (p.inChannels / cfg.vtaBlockIn) + x)) = matrixBlock _ _ weights c x := by
    intro c x hc hx
    refine (hwgtRow _ (hwgtSize ▸ mul_add_lt hc hx)).trans ?_
    exact hσ.wgt_block hpack hinDvd houtDvd hc hx
  have hacc : σ₄ (.sram .acc (r * (p.outChannels / cfg.vtaBlockOut) + c))
      = matrixBlock _ _ biases r c := by
    refine (haccRow _ (houtSize ▸ mul_add_lt hr hc)).trans ?_
    exact hσ.acc_block hpack hbatch houtDvd hr hc
  -- the GEMM
  have hop : g.opcode = .gemm := getGEMMInsn_opcode ..
  have hreset : g.resetReg = false := getGEMMInsn_resetReg ..
  have hchip := gemm_onChip h ⟨true, false, false, true⟩
  have hlen : (p.uops cfg).length ≤ cfg.uopBuffDepth := (length_uops h).trans_le h.uopSize_le
  have hend : g.uopEnd ≤ (p.uops cfg).length := by
    rw [length_uops h, (sizes_eq h).2.2.2, hg, getGEMMInsn, threadUopCount]
    split_ifs <;> simp_all
  have hexpand : g.expand σ₄.uops = g.expand (p.uops cfg) := GemInsn.expand_uops huops hlen hend
  have hchip' : g.OnChip cfg σ₄.uops := ⟨hchip.uopEnd_le, by rw [hexpand]; exact hchip.slots_lt⟩
  have hperm := expand_gemm cfg p ⟨true, false, false, true⟩
  rw [← hg, ← hexpand] at hperm
  have hout := M.gemm_out g σ₄ hop hreset hchip' (r * (p.outChannels / cfg.vtaBlockOut) + c)
  rw [if_pos (exists_dst (fun r x => r * (p.inChannels / cfg.vtaBlockIn) + x)
    (fun c x => c * (p.inChannels / cfg.vtaBlockIn) + x) hperm hX hr hc)] at hout
  -- the store, and the end
  have hstore := M.exec_storeRow .out 0 ⟨true, false, true, false⟩ h.outSize_le
    (M.exec (.gem g) σ₄) (x := r * (p.outChannels / cfg.vtaBlockOut) + c)
    (houtSize ▸ mul_add_lt hr hc)
  rw [Nat.zero_add, hout] at hstore
  refine (congrFun (M.finish (getFinishInsn false true) _ rfl) _).trans (hstore.trans ?_)
  funext b o
  rw [gemmAcc_tile (fun r x => r * (p.inChannels / cfg.vtaBlockIn) + x)
    (fun c x => c * (p.inChannels / cfg.vtaBlockIn) + x) hblock hperm hinp hwgt hr hc, hacc,
    Nat.div_mul_cancel hinDvd, accum2Out_eq, matrixBlock, matrixBlock, gemmOutputsRef_eq]
  rfl

/-- The output is whole blocks, and the output buffer has room for it. -/
lemma outputBuf_fits (hpack : PackConfig cfg) :
    cfg.vtaBatch ∣ p.batch ∧ cfg.vtaBlockOut ∣ p.outChannels ∧
      4 ∣ (VtaTest.gemm p).outputBufSize cfg ∧
      p.batch / cfg.vtaBatch * (p.outChannels / cfg.vtaBlockOut) * cfg.outElemBytes
        ≤ (VtaTest.gemm p).outputBufSize cfg := by
  refine ⟨Nat.dvd_of_mod_eq_zero h.batch_mod, Nat.dvd_of_mod_eq_zero h.outChannels_mod,
    hpack.out.ratio_dvd.trans (Nat.dvd_mul_right _ _), ?_⟩
  rw [← (sizes_eq h).2.2.1, Nat.mul_comm]
  exact le_rfl

/-- **`gemm_test` is successful** on every machine and in every run of the three modules, for every
input, weight and bias matrix. -/
theorem gemmTest_successful (hin : 0 < p.inChannels) (hpack : PackConfig cfg)
    (hblock : cfg.vtaBlockIn ≤ 63) (M : Machine cfg) {inputs weights : ℕ → ℕ → BitVec 8}
    {biases : ℕ → ℕ → BitVec 32} {σ : Memory cfg}
    (hσ : GemmPrepared cfg p.batch p.inChannels p.outChannels (p.uops cfg) inputs weights biases σ)
    {t : List Insn} {s : State Module DepQueue} (hrun : vtaNet.Run (p.insns cfg) t s)
    (hs : vtaNet.Complete (p.insns cfg) s) (dst : ℕ → ℕ → ℕ) :
    (unpackBuffer 8 32 dst ((runAll M.exec t σ).outputBuf ((VtaTest.gemm p).outputBufSize cfg))
      p.batch p.outChannels cfg.vtaBatch cfg.vtaBlockOut).map
        (testResult p.batch p.outChannels (gemmOutputsRef p.inChannels inputs weights biases))
      = some 0 := by
  obtain ⟨hbatch, hout, hbytes, hlen⟩ := outputBuf_fits h hpack
  obtain ⟨r, hr, -, hiff⟩ := verdict hpack (runAll M.exec t σ) hbatch hout hbytes hlen dst
    (gemmOutputsRef p.inChannels inputs weights biases)
  rw [hr, hiff.mpr]
  intro y hy x hx
  rw [hrun.eq_of_prefix hs (prefix_of_run hrun)]
  exact outputs_of_runAll h hin hpack hblock M hσ hy hx

omit h in
/-- A run of `gemm_test` that ends with success. -/
theorem gemmTest_successful_compressed : ∃ t s σ outputs,
    vtaNet.Run ((GemmTest.mk 2 32 16 true).insns config16) t s ∧
      vtaNet.Complete ((GemmTest.mk 2 32 16 true).insns config16) s ∧
      unpackBuffer 8 32 (fun _ _ => 0) ((runAll (flatExec config16) t σ).outputBuf 32) 2 16 1 16
        = some outputs ∧
      testResult 2 16 (gemmOutputsRef 32 (fun i k => .ofNat 8 (i * k)) (fun j k => .ofNat 8 (j + k))
        fun i _ => .ofNat 32 i) outputs = 0 := by
  have hreplay := (GemmTest.mk 2 32 16 true).replay config16
  rw [queues_zero] at hreplay
  obtain ⟨s, hrun, hs⟩ := hreplay.exists_run
  have hprepared := gemmPrepared_called config16 2 32 16 ((GemmTest.mk 2 32 16 true).uops config16)
    (fun i k => .ofNat 8 (i * k)) (fun j k => .ofNat 8 (j + k)) fun i _ => .ofNat 32 i
  have hresult := gemmTest_successful (by constructor <;> decide) (by decide) packConfig16
    (by decide) (flatMachine config16) hprepared hrun hs fun _ _ => 0
  obtain ⟨outputs, hout, hzero⟩ := Option.map_eq_some_iff.mp hresult
  exact ⟨_, s, _, outputs, hrun, hs, hout, hzero⟩

end GemmTest

end ThreeLaSim
