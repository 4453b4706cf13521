import ThreeLaSim.Vta.AluRun
import ThreeLaSim.Vta.CoSim

/-!
# What the co-simulation says about a test

The printed outputs of a test are what the accelerator left, and the co-simulation holds a model
against them.  The test itself holds a memory against a reference in plain loops.  On a machine with
the laws of `Machine` the two checks are one: a model passes the first exactly when its output
memory, unpacked by the test, passes the second.

* **`VtaTest.Ran.check_iff`** — the check of a test, on any memory, is a comparison with the memory
  that a run of the test ends with.
* **`cosim_checks_reference`** — the co-simulation of a log of such runs decides that check.
-/

namespace ThreeLaSim

open TokenNet LoopNest Footprint

variable {cfg : VtaConfig}

/-! ## The output memory, byte by byte -/

namespace Memory

/-- The memory of a model that has only output bytes. -/
def ofBytes (cfg : VtaConfig) (bytes : ℕ → BitVec 8) : Memory cfg
  | .dram .out b => fun r c => bytes (b * cfg.outElemBytes + (r * cfg.vtaBlockOut + c))
  | .dram .uop _ | .sram .uop _ => ⟨0, 0, 0⟩
  | .dram .wgt _ | .dram .inp _ | .dram .acc _ => fun _ _ => 0
  | .sram .wgt _ | .sram .inp _ | .sram .acc _ | .sram .out _ => fun _ _ => 0

lemma outByte_ofBytes (bytes : ℕ → BitVec 8) (z : ℕ) : (ofBytes cfg bytes).outByte z = bytes z := by
  show bytes _ = bytes z
  rw [Nat.div_add_mod', Nat.div_add_mod']

lemma ofBytes_outByte (σ : Memory cfg) (b : ℕ) :
    ofBytes cfg σ.outByte (.dram .out b) = σ (.dram .out b) := by
  funext r c
  exact σ.outByte_mul_add b r c

/-- Two memories have the same bytes when they have the same blocks. -/
lemma outByte_eq_iff {σ τ : Memory cfg} {n : ℕ} :
    (∀ z < n * cfg.outElemBytes, σ.outByte z = τ.outByte z) ↔
      ∀ b < n, σ (.dram .out b) = τ (.dram .out b) := by
  constructor
  · intro h b hb
    funext r c
    have hcell : r * cfg.vtaBlockOut + c < cfg.outElemBytes := mul_add_lt r.isLt c.isLt
    have hbyte := h _ (mul_add_lt hb hcell)
    rwa [outByte_mul_add, outByte_mul_add] at hbyte
  · intro h z hz
    have hb : z / cfg.outElemBytes < n := Nat.div_lt_of_lt_mul (by rwa [Nat.mul_comm])
    rw [outByte, outByte, h _ hb]

end Memory

/-! ## Runs of the tests -/

/-- The matrices that a test draws.  The vectors of `alu_test` are `biases`, as it packs them. -/
structure TestData where
  inputs : ℕ → ℕ → BitVec 8
  weights : ℕ → ℕ → BitVec 8
  biases : ℕ → ℕ → BitVec 32

namespace VtaTest

/-- The rows of the matrix a test computes. -/
def ySize : VtaTest → ℕ
  | .alu p => p.batch
  | .gemm p => p.batch
  | .blocked p => p.batch

/-- Its columns. -/
def xSize : VtaTest → ℕ
  | .alu p => p.vectorSize
  | .gemm p => p.outChannels
  | .blocked p => p.outFeat

variable (cfg)

/-- The end of a test: it unpacks its output buffer and compares with its reference. -/
def check (t : VtaTest) (outputsRef : ℕ → ℕ → BitVec 8) (dst : ℕ → ℕ → ℕ) (σ : Memory cfg) :
    Option ℤ :=
  (unpackBuffer 8 32 dst (σ.outputBuf (t.outputBufSize cfg)) t.ySize t.xSize cfg.vtaBatch
    cfg.vtaBlockOut).map (testResult t.ySize t.xSize outputsRef)

/-- `outputs_ref`. -/
def outputsRef : VtaTest → TestData → ℕ → ℕ → BitVec 8
  | .alu p, d => p.outputsRef cfg d.biases
  | .gemm p, d => gemmOutputsRef p.inChannels d.inputs d.weights d.biases
  | .blocked p, d => gemmOutputsRef p.inFeat d.inputs d.weights d.biases

/-- The parameters and the data a test is run with. -/
def Runnable : VtaTest → TestData → Prop
  | .alu p, d => p.Asserts cfg ∧ p.Operands cfg d.biases ∧ 0 < p.batch
  | .gemm p, _ => p.Asserts cfg ∧ 0 < p.inChannels
  | .blocked p, _ => p.Valid cfg ∧ p.FitsChip cfg

variable {cfg}

/-- A memory with the operands in place. -/
def Prepared : VtaTest → TestData → Memory cfg → Prop
  | .alu p, d => AluPrepared cfg p d.biases
  | .gemm p, d =>
      GemmPrepared cfg p.batch p.inChannels p.outChannels (p.uops cfg) d.inputs d.weights d.biases
  | .blocked p, d =>
      GemmPrepared cfg p.batch p.inFeat p.outFeat (p.uops cfg) d.inputs d.weights d.biases

/-- After a completed run of a test, in any interleaving, a machine has the memory `τ`. -/
structure Ran (M : Machine cfg) (t : VtaTest) (d : TestData) (τ : Memory cfg) : Prop where
  runnable : t.Runnable cfg d
  run : ∃ σ l s, t.Prepared d σ ∧ vtaNet.Run (t.insns cfg) l s ∧
    vtaNet.Complete (t.insns cfg) s ∧ runAll M.exec l σ = τ

namespace Ran

variable {M : Machine cfg} {t : VtaTest} {d : TestData} {τ : Memory cfg}

/-- The number of stored blocks, in rows and columns of blocks. -/
lemma storedCount_eq (h : t.Ran M d τ) :
    t.storedCount cfg = t.ySize / cfg.vtaBatch * (t.xSize / cfg.vtaBlockOut) := by
  have hrun := h.runnable
  cases t with
  | alu p => rfl
  | gemm p => exact (GemmTest.sizes_eq hrun.1).2.2.1
  | blocked p =>
      have hasserts := hrun.1.asserts
      exact Nat.mul_div_assoc _ (hasserts.blockOut_dvd.trans hasserts.block_dvd_channels)

/-- Where the dump fits, its bound is what is stored. -/
lemma dumpBound_eq (h : t.Ran M d τ) (hfits : t.DumpFits cfg) :
    t.dumpBound cfg = t.storedCount cfg * cfg.outElemBytes := by
  have hrun := h.runnable
  cases t with
  | alu p => exact (dumpBound_alu hrun.1.toDivides).mpr hfits
  | gemm p =>
      have hbatch := Nat.dvd_of_mod_eq_zero hrun.1.batch_mod
      have hchannels := Nat.dvd_of_mod_eq_zero hrun.1.outChannels_mod
      rw [dumpBound, storedCount, inpElemBytes_mul_eq, GemmTest.outSize,
        outSize_eq_zero hbatch hchannels]
      exact hfits
  | blocked p =>
      have hasserts := hrun.1.asserts
      have hbatch := hasserts.vtaBatch_dvd.trans hasserts.block_dvd_batch
      have hchannels := hasserts.blockOut_dvd.trans hasserts.block_dvd_channels
      rw [dumpBound, storedCount, inpElemBytes_mul_eq, BlockedGemm.outSize, BlockedGemm.outFeat,
        outSize_eq_zero hbatch hchannels]
      exact hfits

variable (hpack : PackConfig cfg) (hblock : cfg.vtaBlockIn ≤ 63)
  (hsize : cfg.vtaBlockOut ≤ cfg.vtaBlockIn)

include hpack hsize in
/-- The output is whole blocks, and the output buffer has room for it. -/
lemma outputBuf_fits (h : t.Ran M d τ) :
    cfg.vtaBatch ∣ t.ySize ∧ cfg.vtaBlockOut ∣ t.xSize ∧ 4 ∣ t.outputBufSize cfg ∧
      t.ySize / cfg.vtaBatch * (t.xSize / cfg.vtaBlockOut) * cfg.outElemBytes
        ≤ t.outputBufSize cfg := by
  have hrun := h.runnable
  cases t with
  | alu p => exact AluTest.outputBuf_fits hrun.1 hpack
  | gemm p => exact GemmTest.outputBuf_fits hrun.1 hpack
  | blocked p => exact hrun.1.outputBuf_fits hpack hsize

include hpack hblock in
/-- A run ends with the blocks of the reference. -/
lemma dram_out (h : t.Ran M d τ) {y x : ℕ} (hy : y < t.ySize / cfg.vtaBatch)
    (hx : x < t.xSize / cfg.vtaBlockOut) :
    τ (.dram .out (y * (t.xSize / cfg.vtaBlockOut) + x))
      = matrixBlock _ _ (t.outputsRef cfg d) y x := by
  obtain ⟨hrunnable, σ, l, s, hσ, hrun, hs, rfl⟩ := h
  cases t with
  | alu p =>
      obtain ⟨hasserts, hop, hbatch⟩ := hrunnable
      rw [hrun.eq_of_prefix hs (AluTest.prefix_of_run hbatch hasserts hrun)]
      exact AluTest.outputs_of_runAll hasserts hpack hop M hσ hy hx
  | gemm p =>
      obtain ⟨hasserts, hin⟩ := hrunnable
      rw [hrun.eq_of_prefix hs (GemmTest.prefix_of_run hrun)]
      exact GemmTest.outputs_of_runAll hasserts hin hpack hblock M hσ hy hx
  | blocked p =>
      obtain ⟨hvalid, hfit⟩ := hrunnable
      have huops : ∀ n, ∀ hn : n < (p.uops cfg).length, σ (.dram .uop n) = (p.uops cfg)[n] := hσ.uop
      have heq : runAll M.exec l σ = runAll M.exec (p.insns cfg) σ :=
        hvalid.runAll_insns hfit M hrun hs huops
      rw [heq]
      exact hvalid.outputs_of_runAll hfit hpack M hblock hσ hy hx

include hpack hblock in
/-- A memory has the blocks of the reference when it has those of the run. -/
lemma dram_out_iff (h : t.Ran M d τ) {σ : Memory cfg} :
    (∀ y < t.ySize / cfg.vtaBatch, ∀ x < t.xSize / cfg.vtaBlockOut,
      σ (.dram .out (y * (t.xSize / cfg.vtaBlockOut) + x))
        = matrixBlock _ _ (t.outputsRef cfg d) y x) ↔
      ∀ b < t.storedCount cfg, σ (.dram .out b) = τ (.dram .out b) := by
  rw [h.storedCount_eq]
  constructor
  · intro hall b hb
    have hcols : 0 < t.xSize / cfg.vtaBlockOut := Nat.pos_of_ne_zero fun h0 => by simp [h0] at hb
    have hrow : b / (t.xSize / cfg.vtaBlockOut) < t.ySize / cfg.vtaBatch :=
      Nat.div_lt_of_lt_mul (by rwa [Nat.mul_comm])
    have hcol := Nat.mod_lt b hcols
    have hσ := hall _ hrow _ hcol
    have hτ := h.dram_out hpack hblock hrow hcol
    rw [Nat.div_add_mod'] at hσ hτ
    exact hσ.trans hτ.symm
  · intro hall y hy x hx
    exact (hall _ (mul_add_lt hy hx)).trans (h.dram_out hpack hblock hy hx)

include hpack hblock in
/-- Runs of a test on the same data end with the same output blocks, whatever the machines. -/
lemma dram_out_eq (h : t.Ran M d τ) {M' : Machine cfg} {τ' : Memory cfg} (h' : t.Ran M' d τ') {b : ℕ}
    (hb : b < t.storedCount cfg) : τ (.dram .out b) = τ' (.dram .out b) :=
  (h'.dram_out_iff hpack hblock).mp (fun _ hy _ hx => h.dram_out hpack hblock hy hx) b hb

include hpack hblock hsize in
/-- **The check of a test** on any memory: it returns 0 when the memory has the output blocks that a
run of the test ends with, otherwise -1. -/
theorem check_iff (h : t.Ran M d τ) (dst : ℕ → ℕ → ℕ) (σ : Memory cfg) :
    ∃ r, t.check cfg (t.outputsRef cfg d) dst σ = some r ∧ (r = 0 ∨ r = -1) ∧
      (r = 0 ↔ ∀ b < t.storedCount cfg, σ (.dram .out b) = τ (.dram .out b)) := by
  obtain ⟨hy, hx, hbytes, hlen⟩ := h.outputBuf_fits hpack hsize
  obtain ⟨r, hr, hcases, hiff⟩ := verdict hpack σ hy hx hbytes hlen dst (t.outputsRef cfg d)
  exact ⟨r, hr, hcases, hiff.trans (h.dram_out_iff hpack hblock)⟩

end Ran

end VtaTest

/-! ## Runs in the log -/

/-- A run of a test as the log has it: the output records are the dump of the memory that the
accelerator ended with, and the dump is what was stored. -/
structure TestedRun (M : Machine cfg) extends LoggedRun where
  test : VtaTest
  data : TestData
  memory : Memory cfg
  ran : test.Ran M data memory
  fits : test.DumpFits cfg
  printed : toLoggedRun.outputs.map (fun o => (o.index, o.value))
    = (test.dumped cfg).map fun z => (z, (memory.outByte z).toNat)

namespace TestedRun

variable {M : Machine cfg} (r : TestedRun M)

/-- The printed outputs stand for the stored blocks. -/
lemma outputs_iff (dramOut : ℤ → BitVec 8) :
    (∀ o ∈ r.outputs, (dramOut o.index).toNat = o.value) ↔
      ∀ b < r.test.storedCount cfg,
        Memory.ofBytes cfg (fun z => dramOut z) (.dram .out b) = r.memory (.dram .out b) := by
  rw [← Memory.outByte_eq_iff, ← r.ran.dumpBound_eq r.fits]
  calc (∀ o ∈ r.outputs, (dramOut o.index).toNat = o.value)
      ↔ ∀ c ∈ r.outputs.map fun o => (o.index, o.value), (dramOut (c.1 : ℕ)).toNat = c.2 := by
        rw [List.forall_mem_map]
    _ ↔ ∀ z < r.test.dumpBound cfg, (dramOut z).toNat = (r.memory.outByte z).toNat := by
        rw [r.printed, List.forall_mem_map]
        simp only [VtaTest.dumped, List.mem_range]
    _ ↔ _ := by
        simp only [Memory.outByte_ofBytes, BitVec.toNat_inj]

end TestedRun

/-- **The co-simulation decides the check of the test**: on a log of runs whose outputs were printed
in full, the testbench finds no error in a run exactly when the output memory of the model, unpacked
and compared with the reference as the test does it, makes the test return 0. -/
theorem cosim_checks_reference (hpack : PackConfig cfg) (hblock : cfg.vtaBlockIn ≤ 63)
    (hsize : cfg.vtaBlockOut ≤ cfg.vtaBlockIn) {M : Machine cfg} (conv : Conversion)
    (model : List SimPorts → ℤ → BitVec 8) (runs : List (TestedRun M)) (trailer : List OtherLine)
    (hdistinct : (runs.map fun r => r.name).Nodup) (dst : ℕ → ℕ → ℕ) :
    ∃ outcomes, runAllSh conv (fun ports a => (model ports a).toNat)
        (LoggedRun.logOf (runs.map TestedRun.toLoggedRun) trailer) = some outcomes ∧
      List.Forall₂ (fun r outcome => ∃ ports err, outcome = some (ports, err) ∧
        r.test.check cfg (r.test.outputsRef cfg r.data) dst (Memory.ofBytes cfg fun z => model ports z)
          = some (if err = 0 then 0 else -1)) runs outcomes := by
  have hnames : ((runs.map TestedRun.toLoggedRun).map LoggedRun.name).Nodup := by
    rwa [List.map_map]
  refine ⟨_, runAllSh_logOf conv _ trailer hnames, ?_⟩
  rw [List.map_map, List.forall₂_map_right_iff, List.forall₂_same]
  intro r hr
  refine ⟨_, _, rfl, ?_⟩
  set ports := r.inputs.map IlaRecord.simPorts
  obtain ⟨result, hcheck, hcases, hiff⟩ := r.ran.check_iff hpack hblock hsize dst
    (Memory.ofBytes cfg fun z => model ports z)
  have hzero : r.outputs.countP (fun o => decide ((model ports o.index).toNat ≠ o.value)) = 0 ↔
      result = 0 := by
    rw [hiff, ← r.outputs_iff]
    simp [List.countP_eq_zero]
  rw [hcheck]
  split_ifs with herr
  · rw [hzero.mp herr]
  · rw [hcases.resolve_left fun h => herr (hzero.mpr h)]

/-! ## A run in the log -/

/-- The records that print `n` values of a kind. -/
def printRecords (kind : RecordKind) {n : ℕ} (hn : n ≤ 2 ^ 31) (v : ℕ → ℕ)
    (hv : ∀ i < n, v i < 2 ^ kind.bits) : List IlaRecord :=
  (List.finRange n).map fun (i : Fin n) => ⟨kind, i, v i, i.isLt.trans_le hn, hv i i.isLt⟩

section PrintRecords

variable {kind : RecordKind} {n : ℕ} (hn : n ≤ 2 ^ 31) {v : ℕ → ℕ} (hv : ∀ i < n, v i < 2 ^ kind.bits)

lemma printRecords_map : (printRecords kind hn v hv).map (fun o => (o.index, o.value))
    = (List.range n).map fun i => (i, v i) := by
  rw [printRecords, List.map_map, ← List.map_coe_finRange_eq_range, List.map_map]
  rfl

lemma kind_printRecords : ∀ o ∈ printRecords kind hn v hv, o.kind = kind := by
  intro o ho
  obtain ⟨i, -, rfl⟩ := List.mem_map.mp ho
  rfl

/-- Records of one kind are kept all or not at all. -/
lemma filter_printRecords (p : RecordKind → Bool) : (printRecords kind hn v hv).filter (p ·.kind)
    = if p kind then printRecords kind hn v hv else [] := by
  have hkind := kind_printRecords hn hv
  split_ifs with h
  · rw [List.filter_eq_self]
    intro o ho
    rwa [hkind o ho]
  · rw [List.filter_eq_nil_iff]
    intro o ho
    rwa [hkind o ho]

end PrintRecords

lemma recordsOf_map_inr (records : List IlaRecord) :
    TestRun.recordsOf (records.map .inr) = records := by
  induction records with
  | nil => rfl
  | cons r records ih => rw [List.map_cons, TestRun.recordsOf, ih]

/-- A log with nothing but a call and a dump. -/
def callRun (operands dump code : List IlaRecord) : LoggedRun :=
  { smallRun with body := (operands ++ dump ++ code).map .inr }

section CallRun

variable {operands dump code : List IlaRecord} (hoperands : ∀ o ∈ operands, o.kind.isOutput = false)
  (hdump : ∀ o ∈ dump, o.kind.isOutput = true) (hcode : ∀ o ∈ code, o.kind.isOutput = false)
include hoperands hdump hcode

lemma outputs_callRun : (callRun operands dump code).outputs = dump := by
  have hnone : ∀ {l : List IlaRecord}, (∀ o ∈ l, o.kind.isOutput = false) →
      l.filter (·.kind.isOutput) = [] := by
    intro l hl
    rw [List.filter_eq_nil_iff]
    intro o ho
    simp [hl o ho]
  rw [LoggedRun.outputs, LoggedRun.records, callRun, recordsOf_map_inr, List.filter_append,
    List.filter_append, hnone hoperands, hnone hcode, List.nil_append, List.append_nil,
    List.filter_eq_self]
  exact hdump

lemma inputs_callRun : (callRun operands dump code).inputs = operands ++ code := by
  have hall : ∀ {l : List IlaRecord}, (∀ o ∈ l, o.kind.isOutput = false) →
      l.filter (!·.kind.isOutput) = l := by
    intro l hl
    rw [List.filter_eq_self]
    intro o ho
    simp [hl o ho]
  have hnone : dump.filter (!·.kind.isOutput) = [] := by
    rw [List.filter_eq_nil_iff]
    intro o ho
    simp [hdump o ho]
  rw [LoggedRun.inputs, LoggedRun.records, callRun, recordsOf_map_inr, List.filter_append,
    List.filter_append, hall hoperands, hall hcode, hnone, List.append_nil]

end CallRun

lemma Memory.outByte_lt (σ : Memory cfg) (n : ℕ) :
    ∀ z < n, (σ.outByte z).toNat < 2 ^ RecordKind.gemmOutput.bits := fun z _ => (σ.outByte z).isLt

/-- A run in a log of its own. -/
def TestedRun.ofRan {M : Machine cfg} {t : VtaTest} {d : TestData} {τ : Memory cfg}
    (h : t.Ran M d τ) (hfits : t.DumpFits cfg) (hn : t.dumpBound cfg ≤ 2 ^ 31)
    {operands code : List IlaRecord} (hoperands : ∀ o ∈ operands, o.kind.isOutput = false)
    (hcode : ∀ o ∈ code, o.kind.isOutput = false) : TestedRun M where
  toLoggedRun := callRun operands (printRecords .gemmOutput hn _ (τ.outByte_lt _)) code
  test := t
  data := d
  memory := τ
  ran := h
  fits := hfits
  printed := by
    have hdump : ∀ o ∈ printRecords .gemmOutput hn _ (τ.outByte_lt _), o.kind.isOutput = true := by
      intro o ho
      rw [kind_printRecords hn _ o ho]
      rfl
    rw [outputs_callRun hoperands hdump hcode, printRecords_map, VtaTest.dumped]

lemma TestedRun.inputs_ofRan {M : Machine cfg} {t : VtaTest} {d : TestData} {τ : Memory cfg}
    (h : t.Ran M d τ) (hfits : t.DumpFits cfg) (hn : t.dumpBound cfg ≤ 2 ^ 31)
    {operands code : List IlaRecord} (hoperands : ∀ o ∈ operands, o.kind.isOutput = false)
    (hcode : ∀ o ∈ code, o.kind.isOutput = false) :
    (ofRan h hfits hn hoperands hcode).inputs = operands ++ code := by
  refine inputs_callRun hoperands ?_ hcode
  intro o ho
  rw [kind_printRecords hn _ o ho]
  rfl

/-- `gemm_test` on one row of 16 channels runs on any data. -/
lemma exists_ran_gemm16 (d : TestData) :
    ∃ τ, (VtaTest.gemm (GemmTest.mk 1 16 16 true)).Ran (flatMachine config16) d τ := by
  have hreplay := (GemmTest.mk 1 16 16 true).replay config16
  rw [queues_zero] at hreplay
  obtain ⟨s, hrun, hs⟩ := hreplay.exists_run
  have hprepared := gemmPrepared_called config16 1 16 16 ((GemmTest.mk 1 16 16 true).uops config16)
    d.inputs d.weights d.biases
  exact ⟨_, ⟨by constructor <;> decide, by decide⟩, _, _, s, hprepared, hrun, hs, rfl⟩

/-- A model without output, on the log of one `gemm_test`. -/
theorem cosim_checks_reference_gemm : ∃ (r : TestedRun (flatMachine config16)) (outcomes : List _),
    r.test = .gemm (GemmTest.mk 1 16 16 true) ∧
    runAllSh signedConversion (fun _ _ => (0#8).toNat) (LoggedRun.logOf [r.toLoggedRun] [])
      = some outcomes ∧
    List.Forall₂ (fun (r : TestedRun (flatMachine config16)) outcome => ∃ ports err,
      outcome = some (ports, err) ∧
        r.test.check config16 (r.test.outputsRef config16 r.data) (fun _ _ => 0)
          (Memory.ofBytes config16 fun _ => 0) = some (if err = 0 then 0 else -1)) [r] outcomes := by
  obtain ⟨τ, hran⟩ := exists_ran_gemm16
    ⟨fun i k => .ofNat 8 (i * k), fun j k => .ofNat 8 (j + k), fun i _ => .ofNat 32 i⟩
  have hbound : (VtaTest.gemm (GemmTest.mk 1 16 16 true)).dumpBound config16 ≤ 2 ^ 31 := by decide
  have hnil : ∀ o ∈ ([] : List IlaRecord), o.kind.isOutput = false := nofun
  obtain ⟨outcomes, hout, hall⟩ := cosim_checks_reference packConfig16 (by decide) le_rfl
    signedConversion (fun _ _ => 0) [TestedRun.ofRan hran (.inl rfl) hbound hnil hnil] []
    (List.nodup_singleton _) fun _ _ => 0
  exact ⟨_, outcomes, rfl, hout, hall⟩

end ThreeLaSim
