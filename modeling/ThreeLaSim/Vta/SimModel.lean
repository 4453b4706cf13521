import ThreeLaSim.Vta.InsnWord
import ThreeLaSim.Vta.SimCheck

/-!
# A model that passes

The log of a test has everything that it calls the accelerator with, and the co-simulation puts these
lines on the ports of the model one by one.  A model that stores the words where the ports say, and
does with an instruction what `Machine` asks, is then in the place of the accelerator, as long as the
instructions come behind the operands.  So it is in `vivado_hls.log`; `test_lib.cc` as it stands
prints them first.

* **`CallPrinted.prepared`** — when the operand lines are through, the DRAM of the model holds them.
* **`cosim_passes`** — it passes the co-simulation of every run, with no errors.
-/

namespace ThreeLaSim

open TokenNet LoopNest Footprint

variable {cfg : VtaConfig}

/-! ## Words in DRAM -/

/-- An element as wide as a word is the word. -/
lemma ofNat_packedElem_word (buf : List ℕ) (z : ℕ) :
    BitVec.ofNat 32 (packedElem 32 (32 / 32) buf z) = .ofNat 32 (buf.getD z 0) := by
  have helem : packedElem 32 (32 / 32) buf z = buf.getD z 0 % 2 ^ 32 := by
    rw [packedElem, BitFields.field_eq, Nat.div_self (by decide), Nat.div_one, Nat.mod_one, pow_zero,
      Nat.div_one]
  refine BitVec.eq_of_toNat_eq ?_
  rw [helem, BitVec.toNat_ofNat, BitVec.toNat_ofNat, Nat.mod_mod]

/-- Blocks whose entries are the elements of a buffer are its blocks. -/
lemma eq_bufferBlock {W h w : ℕ} (hh : 0 < h) (hw : 0 < w) (block : ℕ → Fin h → Fin w → BitVec W)
    {D : ℕ} {buf : List ℕ} {n b : ℕ} (hentry : ∀ z < n * (h * w),
      blockEntry hh hw block z = .ofNat W (packedElem W (D / W) buf z)) (hb : b < n) :
    block b = bufferBlock W D h w buf b :=
  eq_of_blockEntry hh hw hentry hb

/-- The mode in which the ports address a memory; none addresses the outputs. -/
def MemId.memMode : MemId → ℕ
  | .inp => 1
  | .wgt => 2
  | .acc => 3
  | .uop => 4
  | .out => 0

/-- What is on the ports with an operand. -/
lemma IlaRecord.simPorts_of_ne {o : IlaRecord} (h : o.kind ≠ .instr) : o.simPorts =
    ⟨0, o.kind.memMode, o.index, o.onPort 32, o.onPort 8, o.onPort 8, o.onPort 32⟩ := by
  rw [simPorts, if_neg h]

/-! The port of the memory that an operand is for has its value. -/

section Port

variable (o : IlaRecord)

lemma IlaRecord.memInpIn_simPorts (hmode : o.kind.memMode = MemId.inp.memMode) :
    o.simPorts.memInpIn = o.value := by
  have hshown := o.presentedBy_simPorts
  rw [PresentedBy] at hshown
  cases hk : o.kind with
  | gemmInput =>
      simp only [hk] at hshown
      exact (hshown rfl).2.2
  | instr | uop | aluBias | aluOut | gemmWeight | gemmBias | gemmOutput =>
      rw [hk] at hmode
      cases hmode

lemma IlaRecord.memWgtIn_simPorts (hmode : o.kind.memMode = MemId.wgt.memMode) :
    o.simPorts.memWgtIn = o.value := by
  have hshown := o.presentedBy_simPorts
  rw [PresentedBy] at hshown
  cases hk : o.kind with
  | gemmWeight =>
      simp only [hk] at hshown
      exact (hshown rfl).2.2
  | instr | uop | aluBias | aluOut | gemmInput | gemmBias | gemmOutput =>
      rw [hk] at hmode
      cases hmode

lemma IlaRecord.memBiasIn_simPorts (hmode : o.kind.memMode = MemId.acc.memMode) :
    o.simPorts.memBiasIn = o.value := by
  have hshown := o.presentedBy_simPorts
  rw [PresentedBy] at hshown
  cases hk : o.kind with
  | aluBias | gemmBias =>
      simp only [hk] at hshown
      exact (hshown rfl).2.2
  | instr | uop | aluOut | gemmInput | gemmWeight | gemmOutput =>
      rw [hk] at hmode
      cases hmode

lemma IlaRecord.memUopIn_simPorts (hmode : o.kind.memMode = MemId.uop.memMode) :
    o.simPorts.memUopIn = o.value % 2 ^ 32 := by
  have hshown := o.presentedBy_simPorts
  rw [PresentedBy] at hshown
  cases hk : o.kind with
  | uop =>
      simp only [hk] at hshown
      exact (hshown rfl).2.2
  | instr | aluBias | aluOut | gemmInput | gemmWeight | gemmBias | gemmOutput =>
      rw [hk] at hmode
      cases hmode

end Port

lemma RecordKind.memMode_ne_zero {k : RecordKind} (hinstr : k ≠ .instr)
    (hinput : k.isOutput = false) : k.memMode ≠ 0 := by
  cases k with
  | instr => exact absurd rfl hinstr
  | aluOut | gemmOutput => cases hinput
  | uop | aluBias | gemmInput | gemmWeight | gemmBias => decide

namespace Memory

/-! The bytes and words of a memory in DRAM, one block behind the other. -/

variable (σ : Memory cfg)

def inpByte : ℕ → BitVec 8 :=
  blockEntry cfg.vtaBatch_pos cfg.vtaBlockIn_pos fun b => σ (.dram .inp b)

def wgtByte : ℕ → BitVec 8 :=
  blockEntry cfg.vtaBlockOut_pos cfg.vtaBlockIn_pos fun b => σ (.dram .wgt b)

def biasWord : ℕ → BitVec 32 :=
  blockEntry cfg.vtaBatch_pos cfg.vtaBlockOut_pos fun b => σ (.dram .acc b)

def uopWord (n : ℕ) : Uop := σ (.dram .uop n)

end Memory

/-- **A model behind the ports**, as far as a test relies on it: it reads instructions and micro-ops in
the format they are printed in, in mode 0 it does what a `Machine` does, and in the other modes it
stores a word. -/
structure VtaModel (cfg : VtaConfig) (fmt : InsnFormat) extends Machine cfg where
  State : Type
  start : State
  step : State → SimPorts → State
  memory : State → Memory cfg
  step_insn : ∀ s p i, p.memMode = 0 → fmt.readInsn p.instrIn = some i →
    memory (step s p) = exec i (memory s)
  step_inp : ∀ s p, p.memMode = 1 → (memory (step s p)).inpByte
    = Function.update (memory s).inpByte p.memAddr (.ofNat 8 p.memInpIn)
  step_wgt : ∀ s p, p.memMode = 2 → (memory (step s p)).wgtByte
    = Function.update (memory s).wgtByte p.memAddr (.ofNat 8 p.memWgtIn)
  step_bias : ∀ s p, p.memMode = 3 → (memory (step s p)).biasWord
    = Function.update (memory s).biasWord p.memAddr (.ofNat 32 p.memBiasIn)
  step_uop : ∀ s p, p.memMode = 4 → (memory (step s p)).uopWord
    = Function.update (memory s).uopWord p.memAddr (fmt.readUop p.memUopIn)
  step_frame : ∀ s p mem, p.memMode ≠ 0 → mem.memMode ≠ p.memMode → ∀ b,
    memory (step s p) (.dram mem b) = memory s (.dram mem b)

namespace VtaModel

variable {fmt : InsnFormat} (V : VtaModel cfg fmt)

/-- The output memory that the model ends with. -/
def simulate (ports : List SimPorts) (a : ℤ) : BitVec 8 :=
  (V.memory (ports.foldl V.step V.start)).outByte a.toNat

/-! ## One memory -/

section View

variable {β : Type} (view : Memory cfg → ℕ → β) (mem : MemId) {word : SimPorts → β} (val : ℕ → β)
  (hwrite : ∀ s p, p.memMode = mem.memMode → view (V.memory (V.step s p))
    = Function.update (view (V.memory s)) p.memAddr (word p))
  (hframe : ∀ σ τ : Memory cfg, (∀ b, σ (.dram mem b) = τ (.dram mem b)) → view σ = view τ)
  (hword : ∀ o : IlaRecord, o.kind.memMode = mem.memMode → word o.simPorts = val o.value)
  {operands : List IlaRecord} (hoperands : ∀ o ∈ operands, o.kind ≠ .instr ∧ o.kind.isOutput = false)
include hwrite hframe hword hoperands

/-- A memory is written by its own lines alone. -/
lemma view_foldl (s : V.State) :
    view (V.memory ((operands.map IlaRecord.simPorts).foldl V.step s))
      = History.writeAll IlaRecord.index (fun o => val o.value) (view (V.memory s))
          (operands.filter fun o => o.kind.memMode = mem.memMode) := by
  rw [List.foldl_map]
  refine History.foldl_view (fun s => view (V.memory s)) ?_ s
  intro s o ho
  obtain ⟨hinstr, hinput⟩ := hoperands o ho
  have hports := IlaRecord.simPorts_of_ne hinstr
  by_cases hmode : o.kind.memMode = mem.memMode
  · rw [hwrite s _ (by rw [hports, hmode]), hword o hmode, hports]
    simp [hmode]
  · have hne : o.simPorts.memMode ≠ 0 := by
      rw [hports]
      exact RecordKind.memMode_ne_zero hinstr hinput
    rw [hframe _ _ (V.step_frame s o.simPorts mem hne (by rw [hports]; exact Ne.symm hmode))]
    simp [hmode]

/-- Lines that print a buffer from its start on fill the memory from its start on. -/
lemma view_printed {n : ℕ} {v : ℕ → ℕ}
    (hprinted : (operands.filter fun o => o.kind.memMode = mem.memMode).map
      (fun o => (o.index, o.value)) = (List.range n).map fun i => (i, v i)) (s : V.State) {i : ℕ}
    (hi : i < n) :
    view (V.memory ((operands.map IlaRecord.simPorts).foldl V.step s)) i = val (v i) := by
  rw [V.view_foldl view mem val hwrite hframe hword hoperands]
  exact History.writeAll_of_map_eq_range hprinted _ hi

end View

end VtaModel

/-! ## The call -/

/-- `VTA_WGT_ELEM_BYTES`: the bytes of a weight block, with elements of one byte. -/
def VtaConfig.wgtElemBytes (cfg : VtaConfig) : ℕ := cfg.vtaBlockOut * cfg.vtaBlockIn

/-- `VTA_ACC_ELEM_BYTES`: the bytes of an accumulator block, with elements of four bytes. -/
def VtaConfig.accElemBytes (cfg : VtaConfig) : ℕ := cfg.vtaBatch * cfg.vtaBlockOut * 4

/-- Accumulator blocks in words. -/
lemma accElemBytes_mul_div (n : ℕ) :
    cfg.accElemBytes * n / 4 = cfg.vtaBatch * cfg.vtaBlockOut * n := by
  rw [VtaConfig.accElemBytes, Nat.mul_right_comm, Nat.mul_div_cancel _ (by decide)]

namespace VtaTest

variable (cfg)

/-- `input_buf`. -/
def inputBuf : VtaTest → TestData → List ℕ
  | .alu _, _ => []
  | .gemm p, d => packBuffer 8 32 (fun y x => (d.inputs y x).toInt) p.batch p.inChannels
      cfg.vtaBatch cfg.vtaBlockIn
  | .blocked p, d => packBuffer 8 32 (fun y x => (d.inputs y x).toInt) p.batch p.inFeat
      cfg.vtaBatch cfg.vtaBlockIn

/-- `weight_buf`. -/
def weightBuf : VtaTest → TestData → List ℕ
  | .alu _, _ => []
  | .gemm p, d => packBuffer 8 32 (fun y x => (d.weights y x).toInt) p.outChannels p.inChannels
      cfg.vtaBlockOut cfg.vtaBlockIn
  | .blocked p, d => packBuffer 8 32 (fun y x => (d.weights y x).toInt) p.outFeat p.inFeat
      cfg.vtaBlockOut cfg.vtaBlockIn

/-- What `packBuffer` writes to `bias_buf`. -/
def biasBuf : VtaTest → TestData → List ℕ
  | .alu p, d => packBuffer 32 32 (fun y x => (d.biases y x).toInt) p.batch
      (p.vectorSize * p.inputSets) cfg.vtaBatch cfg.vtaBlockOut
  | .gemm p, d => packBuffer 32 32 (fun y x => (d.biases y x).toInt) p.batch p.outChannels
      cfg.vtaBatch cfg.vtaBlockOut
  | .blocked p, d => packBuffer 32 32 (fun y x => (d.biases y x).toInt) p.batch p.outFeat
      cfg.vtaBatch cfg.vtaBlockOut

/-! The bounds of the loops that print the three buffers. -/

def inputBound : VtaTest → ℕ
  | .alu _ => 0
  | .gemm p => cfg.inpElemBytes * p.inpSize cfg
  | .blocked p => cfg.inpElemBytes * p.inpSize cfg

def weightBound : VtaTest → ℕ
  | .alu _ => 0
  | .gemm p => cfg.wgtElemBytes * p.wgtSize cfg
  | .blocked p => cfg.wgtElemBytes * p.wgtSize cfg

def biasBound : VtaTest → ℕ
  | .alu p => cfg.accElemBytes * p.batch * p.txSize cfg * p.inputSets / 4
  | .gemm p => cfg.accElemBytes * p.outSize cfg / 4
  | .blocked p => cfg.accElemBytes * p.outSize cfg / 4

/-- The contents of `uop_buf`; `alu_test` leaves the weight index open. -/
def HasUops : VtaTest → List Uop → Prop
  | .alu p, us => us.map (fun u => (u.dstIdx, u.srcIdx))
      = getMapALUUops (p.txSize cfg) p.uopCompression
  | .gemm p, us => us = p.uops cfg
  | .blocked p, us => us = p.uops cfg

end VtaTest

/-- The lines that print what a test calls the accelerator with: the operands in any order, and the
words of the instructions, whose fields fit.  Behind the packed biases `bias_buf` may have anything, and
so may a micro-op above its 32 bits, which are printed as 64. -/
structure CallPrinted (cfg : VtaConfig) (fmt : InsnFormat) (t : VtaTest) (d : TestData)
    (operands code : List IlaRecord) : Prop where
  operands_kind : ∀ o ∈ operands, o.kind ≠ .instr ∧ o.kind.isOutput = false
  inputs : (operands.filter fun o => o.kind.memMode = MemId.inp.memMode).map
      (fun o => (o.index, o.value))
    = (List.range (t.inputBound cfg)).map fun i => (i, packedElem 8 4 (t.inputBuf cfg d) i)
  weights : (operands.filter fun o => o.kind.memMode = MemId.wgt.memMode).map
      (fun o => (o.index, o.value))
    = (List.range (t.weightBound cfg)).map fun i => (i, packedElem 8 4 (t.weightBuf cfg d) i)
  biases : ∃ v : ℕ → ℕ, (operands.filter fun o => o.kind.memMode = MemId.acc.memMode).map
      (fun o => (o.index, o.value)) = (List.range (t.biasBound cfg)).map (fun i => (i, v i)) ∧
    ∀ i < (t.biasBuf cfg d).length, v i = (t.biasBuf cfg d).getD i 0
  uops : ∃ (us : List Uop) (v : ℕ → ℕ), t.HasUops cfg us ∧ (∀ u ∈ us, fmt.UopFits u) ∧
    (operands.filter fun o => o.kind.memMode = MemId.uop.memMode).map (fun o => (o.index, o.value))
      = (List.range us.length).map (fun i => (i, v i)) ∧
    ∀ n, ∀ hn : n < us.length, v n % 2 ^ 32 = fmt.uopWord us[n]
  code_kind : ∀ o ∈ code, o.kind = .instr
  insns_fit : ∀ i ∈ t.insns cfg, fmt.InsnFits i
  insns : code.map IlaRecord.value = (t.insns cfg).map fmt.insnWord

namespace CallPrinted

variable {fmt : InsnFormat} {V : VtaModel cfg fmt} {t : VtaTest} {d : TestData}
  {operands code : List IlaRecord} (h : CallPrinted cfg fmt t d operands code) (s : V.State)
include h

/-! The memories when the operands are through. -/

lemma inpByte_operands {z : ℕ} (hz : z < t.inputBound cfg) :
    (V.memory ((operands.map IlaRecord.simPorts).foldl V.step s)).inpByte z
      = .ofNat 8 (packedElem 8 4 (t.inputBuf cfg d) z) := by
  refine V.view_printed _ .inp (BitVec.ofNat 8) V.step_inp ?_ ?_ h.operands_kind h.inputs s hz
  · intro σ τ heq
    simp only [Memory.inpByte, heq]
  · intro o hmode
    exact congrArg (BitVec.ofNat 8) (o.memInpIn_simPorts hmode)

lemma wgtByte_operands {z : ℕ} (hz : z < t.weightBound cfg) :
    (V.memory ((operands.map IlaRecord.simPorts).foldl V.step s)).wgtByte z
      = .ofNat 8 (packedElem 8 4 (t.weightBuf cfg d) z) := by
  refine V.view_printed _ .wgt (BitVec.ofNat 8) V.step_wgt ?_ ?_ h.operands_kind h.weights s hz
  · intro σ τ heq
    simp only [Memory.wgtByte, heq]
  · intro o hmode
    exact congrArg (BitVec.ofNat 8) (o.memWgtIn_simPorts hmode)

lemma biasWord_operands {i : ℕ} (hi : i < t.biasBound cfg) (hlen : i < (t.biasBuf cfg d).length) :
    (V.memory ((operands.map IlaRecord.simPorts).foldl V.step s)).biasWord i
      = .ofNat 32 ((t.biasBuf cfg d).getD i 0) := by
  obtain ⟨v, hprinted, hv⟩ := h.biases
  rw [← hv i hlen]
  refine V.view_printed _ .acc (BitVec.ofNat 32) V.step_bias ?_ ?_ h.operands_kind hprinted s hi
  · intro σ τ heq
    simp only [Memory.biasWord, heq]
  · intro o hmode
    exact congrArg (BitVec.ofNat 32) (o.memBiasIn_simPorts hmode)

lemma uopWord_operands : ∃ us : List Uop, t.HasUops cfg us ∧ ∀ n, ∀ hn : n < us.length,
    (V.memory ((operands.map IlaRecord.simPorts).foldl V.step s)).uopWord n = us[n] := by
  obtain ⟨us, v, hus, hfit, hprinted, hwords⟩ := h.uops
  refine ⟨us, hus, ?_⟩
  intro n hn
  have hread : fmt.readUop (v n % 2 ^ 32) = us[n] := by
    rw [hwords n hn]
    exact fmt.readUop_uopWord _ (hfit _ (List.getElem_mem hn))
  rw [← hread]
  refine V.view_printed _ .uop (fun x => fmt.readUop (x % 2 ^ 32)) V.step_uop ?_ ?_
    h.operands_kind hprinted s hn
  · intro σ τ heq
    funext m
    exact heq m
  · intro o hmode
    exact congrArg fmt.readUop (o.memUopIn_simPorts hmode)

/-! The blocks of the operand buffers. -/

lemma inp_block {n b : ℕ} (hn : n * cfg.inpElemBytes ≤ t.inputBound cfg) (hb : b < n) :
    V.memory ((operands.map IlaRecord.simPorts).foldl V.step s) (.dram .inp b)
      = bufferBlock 8 32 _ _ (t.inputBuf cfg d) b :=
  eq_bufferBlock cfg.vtaBatch_pos cfg.vtaBlockIn_pos (fun b => V.memory _ (.dram .inp b))
    (fun _ hz => h.inpByte_operands s (hz.trans_le hn)) hb

lemma wgt_block {n b : ℕ} (hn : n * cfg.wgtElemBytes ≤ t.weightBound cfg) (hb : b < n) :
    V.memory ((operands.map IlaRecord.simPorts).foldl V.step s) (.dram .wgt b)
      = bufferBlock 8 32 _ _ (t.weightBuf cfg d) b :=
  eq_bufferBlock cfg.vtaBlockOut_pos cfg.vtaBlockIn_pos (fun b => V.memory _ (.dram .wgt b))
    (fun _ hz => h.wgtByte_operands s (hz.trans_le hn)) hb

lemma acc_block (hpack : PackConfig cfg) {src : ℕ → ℕ → ℤ} {ySize xSize b : ℕ}
    (hbuf : t.biasBuf cfg d = packBuffer 32 32 src ySize xSize cfg.vtaBatch cfg.vtaBlockOut)
    (hy : cfg.vtaBatch ∣ ySize) (hx : cfg.vtaBlockOut ∣ xSize)
    (hbound : ySize / cfg.vtaBatch * (xSize / cfg.vtaBlockOut) * (cfg.vtaBatch * cfg.vtaBlockOut)
      ≤ t.biasBound cfg) (hb : b < ySize / cfg.vtaBatch * (xSize / cfg.vtaBlockOut)) :
    V.memory ((operands.map IlaRecord.simPorts).foldl V.step s) (.dram .acc b)
      = bufferBlock 32 32 _ _ (t.biasBuf cfg d) b := by
  have hlen : (t.biasBuf cfg d).length = ySize / cfg.vtaBatch * (xSize / cfg.vtaBlockOut)
      * (cfg.vtaBatch * cfg.vtaBlockOut) := by
    rw [hbuf, hpack.acc.length_packBuffer cfg.vtaBatch_pos cfg.vtaBlockOut_pos _ hy hx,
      Nat.div_self (by decide), Nat.div_one]
  refine eq_bufferBlock cfg.vtaBatch_pos cfg.vtaBlockOut_pos (fun b => V.memory _ (.dram .acc b)) ?_
    hb
  intro z hz
  rw [ofNat_packedElem_word]
  exact h.biasWord_operands s (hz.trans_le hbound) (hz.trans_eq hlen.symm)

/-- The call of a GEMM test. -/
lemma gemm_prepared (hpack : PackConfig cfg) {batch inFeat outFeat : ℕ} {uops : List Uop}
    (huops : ∀ us, t.HasUops cfg us → us = uops)
    (hinputs : t.inputBuf cfg d = packBuffer 8 32 (fun y x => (d.inputs y x).toInt) batch inFeat
      cfg.vtaBatch cfg.vtaBlockIn)
    (hweights : t.weightBuf cfg d = packBuffer 8 32 (fun y x => (d.weights y x).toInt) outFeat inFeat
      cfg.vtaBlockOut cfg.vtaBlockIn)
    (hbiases : t.biasBuf cfg d = packBuffer 32 32 (fun y x => (d.biases y x).toInt) batch outFeat
      cfg.vtaBatch cfg.vtaBlockOut)
    (hinp : t.inputBound cfg = cfg.inpElemBytes * (batch / cfg.vtaBatch * inFeat / cfg.vtaBlockIn))
    (hwgt : t.weightBound cfg
      = cfg.wgtElemBytes * (inFeat / cfg.vtaBlockIn * outFeat / cfg.vtaBlockOut))
    (hacc : t.biasBound cfg
      = cfg.accElemBytes * (batch / cfg.vtaBatch * outFeat / cfg.vtaBlockOut) / 4)
    (hbatch : cfg.vtaBatch ∣ batch) (hout : cfg.vtaBlockOut ∣ outFeat) :
    GemmPrepared cfg batch inFeat outFeat uops d.inputs d.weights d.biases
      (V.memory ((operands.map IlaRecord.simPorts).foldl V.step s)) := by
  constructor
  case uop =>
    obtain ⟨us, hus, huop⟩ := h.uopWord_operands s
    obtain rfl := huops us hus
    exact huop
  case inp =>
    intro b hb
    rw [← hinputs]
    exact h.inp_block s ((Nat.mul_comm _ _).trans hinp.symm).le hb
  case wgt =>
    intro b hb
    rw [← hweights]
    exact h.wgt_block s ((Nat.mul_comm _ _).trans hwgt.symm).le hb
  case acc =>
    intro b hb
    rw [Nat.mul_div_assoc _ hout] at hb
    rw [← hbiases]
    refine h.acc_block s hpack hbiases hbatch hout ?_ hb
    rw [hacc, accElemBytes_mul_div, Nat.mul_div_assoc _ hout, Nat.mul_comm]

omit h in
/-- The call of `alu_test`. -/
lemma alu_prepared {p : AluTest} (h : CallPrinted cfg fmt (.alu p) d operands code)
    (hpack : PackConfig cfg) (hasserts : p.Asserts cfg) :
    AluPrepared cfg p d.biases (V.memory ((operands.map IlaRecord.simPorts).foldl V.step s)) := by
  obtain ⟨hdvd, hwidth⟩ := AluTest.width_eq hasserts
  constructor
  case uop =>
    obtain ⟨us, hus, huop⟩ := h.uopWord_operands s
    have hpairs : us.map (fun u => (u.dstIdx, u.srcIdx))
      = getMapALUUops (p.txSize cfg) p.uopCompression := hus
    intro n hn
    have hlen : n < us.length := by
      rwa [← hpairs, List.length_map] at hn
    have hword := huop n hlen
    rw [Memory.uopWord] at hword
    simp only [hword, ← hpairs, List.getElem_map]
  case acc =>
    intro b hb
    rw [← hwidth] at hb
    refine h.acc_block s hpack rfl (Nat.dvd_of_mod_eq_zero hasserts.batch_mod) hdvd ?_ hb
    -- the loop prints `batch` rows of blocks, not `batch / VTA_BATCH`
    rw [hwidth, VtaTest.biasBound, Nat.mul_assoc (cfg.accElemBytes * p.batch),
      Nat.mul_assoc cfg.accElemBytes, accElemBytes_mul_div]
    calc p.batch / cfg.vtaBatch * (p.txSize cfg * p.inputSets) * (cfg.vtaBatch * cfg.vtaBlockOut)
        ≤ p.batch * (p.txSize cfg * p.inputSets) * (cfg.vtaBatch * cfg.vtaBlockOut) :=
          Nat.mul_le_mul_right _ (Nat.mul_le_mul_right _ (Nat.div_le_self _ _))
      _ = cfg.vtaBatch * cfg.vtaBlockOut * (p.batch * (p.txSize cfg * p.inputSets)) := by ring

/-- **The call is in place** when the operand lines are through. -/
theorem prepared (hpack : PackConfig cfg) (hrunnable : t.Runnable cfg d) :
    t.Prepared d (V.memory ((operands.map IlaRecord.simPorts).foldl V.step s)) := by
  cases t with
  | alu p => exact h.alu_prepared s hpack hrunnable.1
  | gemm p =>
      have hasserts := hrunnable.1
      exact h.gemm_prepared s hpack (fun _ hus => hus) rfl rfl rfl rfl rfl rfl
        (Nat.dvd_of_mod_eq_zero hasserts.batch_mod) (Nat.dvd_of_mod_eq_zero hasserts.outChannels_mod)
  | blocked p =>
      have hasserts := hrunnable.1.asserts
      exact h.gemm_prepared s hpack (fun _ hus => hus) rfl rfl rfl rfl rfl rfl
        (hasserts.vtaBatch_dvd.trans hasserts.block_dvd_batch)
        (hasserts.blockOut_dvd.trans hasserts.block_dvd_channels)

end CallPrinted

/-- Words of instructions are done one after another. -/
lemma VtaModel.memory_code {fmt : InsnFormat} (V : VtaModel cfg fmt) {insns : List Insn}
    {code : List IlaRecord} (hkind : ∀ o ∈ code, o.kind = .instr)
    (hfit : ∀ i ∈ insns, fmt.InsnFits i)
    (hwords : code.map IlaRecord.value = insns.map fmt.insnWord) (s : V.State) :
    V.memory ((code.map IlaRecord.simPorts).foldl V.step s) = runAll V.exec insns (V.memory s) := by
  induction code generalizing insns s with
  | nil =>
      obtain rfl := List.map_eq_nil_iff.mp hwords.symm
      rfl
  | cons o code ih =>
      obtain ⟨i, insns, rfl, hword, hrest⟩ := List.map_eq_cons_iff.mp hwords.symm
      obtain ⟨hi, hfit⟩ := List.forall_mem_cons.mp hfit
      obtain ⟨ho, hkind⟩ := List.forall_mem_cons.mp hkind
      have hports : o.simPorts = ⟨fmt.insnWord i, 0, 0, 0, 0, 0, 0⟩ := by
        rw [IlaRecord.simPorts, if_pos ho, hword]
      have hstep : V.memory (V.step s o.simPorts) = V.exec i (V.memory s) := by
        rw [hports]
        exact V.step_insn _ _ _ rfl (fmt.readInsn_insnWord i hi)
      rw [List.map_cons, List.foldl_cons, ih hkind hfit hrest.symm, hstep]
      rfl

/-! ## The verdict -/

/-- The instruction buffer of a test can be done in its order. -/
lemma VtaTest.Runnable.exists_run {t : VtaTest} {d : TestData} (h : t.Runnable cfg d) :
    ∃ s, vtaNet.Run (t.insns cfg) (t.insns cfg) s ∧ vtaNet.Complete (t.insns cfg) s := by
  have hreplay : vtaNet.Replay (fun _ => 0) (t.insns cfg) (fun _ => 0) := by
    cases t with
    | alu p =>
        rw [← queues_zero]
        exact p.replay cfg h.2.2 h.1
    | gemm p =>
        rw [← queues_zero]
        exact p.replay cfg
    | blocked p => exact .map h.1.replay_labelled
  exact hreplay.exists_run

/-- A model that is given the lines of a test has run it. -/
theorem CallPrinted.ran {fmt : InsnFormat} {V : VtaModel cfg fmt} {t : VtaTest} {d : TestData}
    {operands code : List IlaRecord} (h : CallPrinted cfg fmt t d operands code) (hpack : PackConfig cfg)
    (hrunnable : t.Runnable cfg d) : t.Ran V.toMachine d
      (V.memory (((operands ++ code).map IlaRecord.simPorts).foldl V.step V.start)) := by
  obtain ⟨s, hrun, hs⟩ := hrunnable.exists_run
  refine ⟨hrunnable, _, _, s, h.prepared V.start hpack hrunnable, hrun, hs, ?_⟩
  rw [List.map_append, List.foldl_append, V.memory_code h.code_kind h.insns_fit h.insns]

/-- A run of a test as the log has it, with all lines that print the call, in the order of
`vivado_hls.log`: the instructions behind the operands. -/
structure PrintedRun (M : Machine cfg) (fmt : InsnFormat) extends TestedRun M where
  operands : List IlaRecord
  code : List IlaRecord
  inputs_eq : toLoggedRun.inputs = operands ++ code
  call : CallPrinted cfg fmt test data operands code

/-- **A right model passes**: on a log of runs that print the call and the outputs in full, the
testbench finds no error in any run, whatever machine printed the log. -/
theorem cosim_passes (hpack : PackConfig cfg) (hblock : cfg.vtaBlockIn ≤ 63) {M : Machine cfg}
    {fmt : InsnFormat} (V : VtaModel cfg fmt) (conv : Conversion) (runs : List (PrintedRun M fmt))
    (trailer : List OtherLine)
    (hdistinct : (runs.map fun r => r.name).Nodup) :
    ∃ outcomes, runAllSh conv (fun ports a => (V.simulate ports a).toNat)
        (LoggedRun.logOf (runs.map fun r => r.toLoggedRun) trailer) = some outcomes ∧
      List.Forall₂ (fun r outcome => outcome = some (r.inputs.map IlaRecord.simPorts, 0))
        runs outcomes := by
  have hnames : ((runs.map fun r => r.toLoggedRun).map LoggedRun.name).Nodup := by
    rwa [List.map_map]
  refine ⟨_, runAllSh_logOf conv _ trailer hnames, ?_⟩
  rw [List.map_map, List.forall₂_map_right_iff, List.forall₂_same]
  intro r hr
  have hran := r.call.ran (V := V) hpack r.ran.runnable
  rw [← r.inputs_eq] at hran
  have hheld : ∀ o ∈ r.outputs,
      (V.simulate (r.inputs.map IlaRecord.simPorts) o.index).toNat = o.value := by
    refine (r.outputs_iff _).mpr ?_
    intro b hb
    rw [← hran.dram_out_eq hpack hblock r.ran hb]
    exact Memory.ofBytes_outByte _ b
  have hcount : r.outputs.countP (fun o =>
      decide ((V.simulate (r.inputs.map IlaRecord.simPorts) o.index).toNat ≠ o.value)) = 0 := by
    rw [List.countP_eq_zero]
    intro o ho
    simpa using hheld o ho
  exact congrArg some (Prod.ext rfl hcount)

/-! ## A model with the laws -/

/-- One word for `flatExec`, in a format. -/
def flatStep (fmt : InsnFormat) (σ : Memory cfg) (p : SimPorts) : Memory cfg :=
  if p.memMode = 0 then ((fmt.readInsn p.instrIn).map fun i => flatExec cfg i σ).getD σ
  else fun
    | .dram .inp b =>
        if p.memMode = 1 then
          updateEntry (fun b => σ (.dram .inp b)) p.memAddr (.ofNat 8 p.memInpIn) b
        else σ (.dram .inp b)
    | .dram .wgt b =>
        if p.memMode = 2 then
          updateEntry (fun b => σ (.dram .wgt b)) p.memAddr (.ofNat 8 p.memWgtIn) b
        else σ (.dram .wgt b)
    | .dram .acc b =>
        if p.memMode = 3 then
          updateEntry (fun b => σ (.dram .acc b)) p.memAddr (.ofNat 32 p.memBiasIn) b
        else σ (.dram .acc b)
    | .dram .uop n =>
        if p.memMode = 4 ∧ n = p.memAddr then fmt.readUop p.memUopIn else σ (.dram .uop n)
    | l => σ l

/-- `flatStep` has the laws. -/
def flatModel (cfg : VtaConfig) (fmt : InsnFormat) : VtaModel cfg fmt where
  toMachine := flatMachine cfg
  State := Memory cfg
  start := .called cfg [] (fun _ _ _ => 0) (fun _ _ _ => 0) fun _ _ _ => 0
  step := flatStep fmt
  memory σ := σ
  step_insn σ p i h hread := by
    rw [flatStep, if_pos h, hread]
    rfl
  step_inp σ p h := by
    have hblock : (fun b => flatStep fmt σ p (.dram .inp b))
        = updateEntry (fun b => σ (.dram .inp b)) p.memAddr (.ofNat 8 p.memInpIn) := by
      funext b
      simp [flatStep, h]
    exact (congrArg _ hblock).trans (blockEntry_updateEntry ..)
  step_wgt σ p h := by
    have hblock : (fun b => flatStep fmt σ p (.dram .wgt b))
        = updateEntry (fun b => σ (.dram .wgt b)) p.memAddr (.ofNat 8 p.memWgtIn) := by
      funext b
      simp [flatStep, h]
    exact (congrArg _ hblock).trans (blockEntry_updateEntry ..)
  step_bias σ p h := by
    have hblock : (fun b => flatStep fmt σ p (.dram .acc b))
        = updateEntry (fun b => σ (.dram .acc b)) p.memAddr (.ofNat 32 p.memBiasIn) := by
      funext b
      simp [flatStep, h]
    exact (congrArg _ hblock).trans (blockEntry_updateEntry ..)
  step_uop σ p h := by
    funext n
    by_cases hn : n = p.memAddr
    · rw [hn, Function.update_self]
      simp [Memory.uopWord, flatStep, h]
    · rw [Function.update_of_ne hn]
      simp [Memory.uopWord, flatStep, h, hn]
  step_frame σ p mem hmode hne b := by
    cases mem with
    | inp | wgt | acc | uop =>
        have hmode' := Ne.symm hne
        simp only [MemId.memMode] at hmode'
        simp [flatStep, hmode, hmode']
    | out => simp [flatStep, hmode]

/-! ## A log of its own -/

/-- A list looked up at its positions. -/
lemma map_range_getD {α β : Type*} (f : α → β) (l : List α) (x : α) :
    ((List.range l.length).map fun n => f (l.getD n x)) = l.map f := by
  refine List.ext_getElem (by simp) ?_
  intro n _ hn
  rw [List.length_map] at hn
  rw [List.getElem_map, List.getElem_range, List.getElem_map, List.getD_eq_getElem _ _ hn]

lemma getD_mem {α : Type*} {l : List α} {n : ℕ} (hn : n < l.length) (x : α) : l.getD n x ∈ l := by
  rw [List.getD_eq_getElem _ _ hn]
  exact List.getElem_mem hn

lemma packedElem_lt_bits {k : RecordKind} (hk : k.bits = 8) (buf : List ℕ) (n : ℕ) :
    ∀ i < n, packedElem 8 4 buf i < 2 ^ k.bits := by
  intro i _
  rw [hk]
  exact BitFields.field_lt ..

section OwnLog

variable (fmt : InsnFormat) (t : VtaTest) (d : TestData) {us : List Uop}
  (hinp : t.inputBound cfg ≤ 2 ^ 31) (hwgt : t.weightBound cfg ≤ 2 ^ 31)
  (hacc : t.biasBound cfg ≤ 2 ^ 31)
  (hbias : ∀ i < t.biasBound cfg, (t.biasBuf cfg d).getD i 0 < 2 ^ RecordKind.gemmBias.bits)
  (huop : us.length ≤ 2 ^ 31) (huops : ∀ u ∈ us, fmt.UopFits u)
  (hinsn : (t.insns cfg).length ≤ 2 ^ 31) (hinsns : ∀ i ∈ t.insns cfg, fmt.InsnFits i)

/-- The words of the micro-ops and of the instructions, by their numbers. -/
def uopWords (us : List Uop) (n : ℕ) : ℕ := fmt.uopWord (us.getD n ⟨0, 0, 0⟩)

def insnWords (insns : List Insn) (n : ℕ) : ℕ :=
  fmt.insnWord (insns.getD n (.gem (getFinishInsn false true)))

include huops in
lemma uopWords_lt : ∀ n < us.length, uopWords fmt us n < 2 ^ RecordKind.uop.bits := by
  intro n hn
  exact (fmt.uopWord_lt _ (huops _ (getD_mem hn _))).trans (by decide)

include hinsns in
lemma insnWords_lt :
    ∀ n < (t.insns cfg).length, insnWords fmt (t.insns cfg) n < 2 ^ RecordKind.instr.bits :=
  fun _ hn => fmt.insnWord_lt _ (hinsns _ (getD_mem hn _))

/-- Lines that print the operands. -/
def operandRecords : List IlaRecord :=
  printRecords .gemmInput hinp (packedElem 8 4 (t.inputBuf cfg d)) (packedElem_lt_bits rfl _ _) ++
  printRecords .gemmWeight hwgt (packedElem 8 4 (t.weightBuf cfg d)) (packedElem_lt_bits rfl _ _) ++
  printRecords .gemmBias hacc (fun i => (t.biasBuf cfg d).getD i 0) hbias ++
  printRecords .uop huop (uopWords fmt us) (uopWords_lt fmt huops)

/-- Lines that print the instructions. -/
def codeRecords : List IlaRecord :=
  printRecords .instr hinsn (insnWords fmt (t.insns cfg)) (insnWords_lt fmt t hinsns)

lemma kind_operandRecords : ∀ o ∈ operandRecords fmt t d hinp hwgt hacc hbias huop huops,
    o.kind ≠ .instr ∧ o.kind.isOutput = false := by
  intro o ho
  simp only [operandRecords, List.mem_append] at ho
  obtain ((ho | ho) | ho) | ho := ho
  all_goals
    rw [kind_printRecords _ _ o ho]
    exact ⟨by decide, rfl⟩

lemma kind_codeRecords : ∀ o ∈ codeRecords fmt t hinsn hinsns, o.kind = .instr :=
  kind_printRecords _ _

lemma value_codeRecords : (codeRecords fmt t hinsn hinsns).map IlaRecord.value
    = (t.insns cfg).map fmt.insnWord := by
  have hpairs := congrArg (List.map Prod.snd) (printRecords_map hinsn (insnWords_lt fmt t hinsns))
  rw [List.map_map, List.map_map] at hpairs
  exact hpairs.trans (map_range_getD fmt.insnWord _ _)

/-- The lines for one memory. -/
lemma filter_operandRecords (mode : ℕ) :
    (operandRecords fmt t d hinp hwgt hacc hbias huop huops).filter (fun o => o.kind.memMode = mode)
      = (if 1 = mode then printRecords .gemmInput hinp (packedElem 8 4 (t.inputBuf cfg d))
          (packedElem_lt_bits rfl _ _) else []) ++
        (if 2 = mode then printRecords .gemmWeight hwgt (packedElem 8 4 (t.weightBuf cfg d))
          (packedElem_lt_bits rfl _ _) else []) ++
        (if 3 = mode then printRecords .gemmBias hacc (fun i => (t.biasBuf cfg d).getD i 0) hbias
          else []) ++
        if 4 = mode then printRecords .uop huop (uopWords fmt us) (uopWords_lt fmt huops) else [] := by
  have hfilter := fun (kind : RecordKind) {n : ℕ} (hn : n ≤ 2 ^ 31) (v : ℕ → ℕ)
    (hv : ∀ i < n, v i < 2 ^ kind.bits) => filter_printRecords hn hv fun k => decide (k.memMode = mode)
  simp only [operandRecords, List.filter_append, hfilter, decide_eq_true_eq]
  rfl

/-- These lines print the call. -/
lemma callPrinted_records (hus : t.HasUops cfg us) :
    CallPrinted cfg fmt t d (operandRecords fmt t d hinp hwgt hacc hbias huop huops)
      (codeRecords fmt t hinsn hinsns) where
  operands_kind := kind_operandRecords fmt t d hinp hwgt hacc hbias huop huops
  inputs := by
    rw [filter_operandRecords]
    simp [MemId.memMode, printRecords_map]
  weights := by
    rw [filter_operandRecords]
    simp [MemId.memMode, printRecords_map]
  biases := by
    refine ⟨fun i => (t.biasBuf cfg d).getD i 0, ?_, fun _ _ => rfl⟩
    rw [filter_operandRecords]
    simp [MemId.memMode, printRecords_map]
  uops := by
    refine ⟨us, uopWords fmt us, hus, huops, ?_, ?_⟩
    · rw [filter_operandRecords]
      simp [MemId.memMode, printRecords_map]
    · intro n hn
      rw [uopWords, List.getD_eq_getElem _ _ hn]
      exact Nat.mod_eq_of_lt (fmt.uopWord_lt _ (huops _ (List.getElem_mem hn)))
  code_kind := kind_codeRecords fmt t hinsn hinsns
  insns_fit := hinsns
  insns := value_codeRecords fmt t hinsn hinsns

end OwnLog

namespace CallPrinted

variable {fmt : InsnFormat} {t : VtaTest} {d : TestData} {operands code : List IlaRecord}
  (h : CallPrinted cfg fmt t d operands code)
include h

lemma operands_input : ∀ o ∈ operands, o.kind.isOutput = false :=
  fun o ho => (h.operands_kind o ho).2

lemma code_input : ∀ o ∈ code, o.kind.isOutput = false := by
  intro o ho
  rw [h.code_kind o ho]
  rfl

end CallPrinted

/-- A run in a log of its own, with its call. -/
def PrintedRun.ofRan {M : Machine cfg} {fmt : InsnFormat} {t : VtaTest} {d : TestData}
    {τ : Memory cfg} (h : t.Ran M d τ) (hfits : t.DumpFits cfg) (hn : t.dumpBound cfg ≤ 2 ^ 31)
    {operands code : List IlaRecord} (hcall : CallPrinted cfg fmt t d operands code) :
    PrintedRun M fmt where
  toTestedRun := .ofRan h hfits hn hcall.operands_input hcall.code_input
  operands := operands
  code := code
  inputs_eq := TestedRun.inputs_ofRan h hfits hn hcall.operands_input hcall.code_input
  call := hcall

/-- The model of `flatExec`, on the log of one `gemm_test` in the layout of `vivado_hls.log`. -/
theorem cosim_passes_gemm : ∃ (r : PrintedRun (flatMachine config16) logFormat) (outcomes : List _),
    r.test = .gemm (GemmTest.mk 1 16 16 true) ∧
    runAllSh signedConversion
      (fun ports a => ((flatModel config16 logFormat).simulate ports a).toNat)
      (LoggedRun.logOf [r.toLoggedRun] []) = some outcomes ∧
    List.Forall₂ (fun (r : PrintedRun (flatMachine config16) logFormat) outcome =>
      outcome = some (r.inputs.map IlaRecord.simPorts, 0)) [r] outcomes := by
  let p := GemmTest.mk 1 16 16 true
  let d : TestData :=
    ⟨fun i k => .ofNat 8 (i * k), fun j k => .ofNat 8 (j + k), fun i _ => .ofNat 32 i⟩
  obtain ⟨τ, hran⟩ := exists_ran_gemm16 d
  have hinp : (VtaTest.gemm p).inputBound config16 ≤ 2 ^ 31 := by decide
  have hwgt : (VtaTest.gemm p).weightBound config16 ≤ 2 ^ 31 := by decide
  have hacc : (VtaTest.gemm p).biasBound config16 ≤ 2 ^ 31 := by decide
  have hbias : ∀ i < (VtaTest.gemm p).biasBound config16,
      ((VtaTest.gemm p).biasBuf config16 d).getD i 0 < 2 ^ RecordKind.gemmBias.bits := by decide
  have huop : (p.uops config16).length ≤ 2 ^ 31 := by decide
  have huops : ∀ u ∈ p.uops config16, logFormat.UopFits u := by
    show ∀ u ∈ p.uops config16, ∀ f ∈ u.fields, f.Fits
    decide
  have hinsn : ((VtaTest.gemm p).insns config16).length ≤ 2 ^ 31 := by decide
  have hinsns : ∀ i ∈ (VtaTest.gemm p).insns config16, logFormat.InsnFits i := by
    show ∀ i ∈ (VtaTest.gemm p).insns config16, i.Plain ∧ ∀ f ∈ i.fields, f.Fits
    decide
  have hout : (VtaTest.gemm p).dumpBound config16 ≤ 2 ^ 31 := by decide
  have hcall := callPrinted_records logFormat (.gemm p) d hinp hwgt hacc hbias huop huops hinsn
    hinsns rfl
  obtain ⟨outcomes, hrunAll, hall⟩ := cosim_passes packConfig16 (by decide)
    (flatModel config16 logFormat) signedConversion
    [PrintedRun.ofRan hran (.inl rfl) hout hcall] [] (List.nodup_singleton _)
  exact ⟨_, outcomes, rfl, hrunAll, hall⟩

end ThreeLaSim
