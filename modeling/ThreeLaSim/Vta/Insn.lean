import ThreeLaSim.Core.TokenNet
import Mathlib.Data.Int.Notation
import Mathlib.Data.List.Induction

/-!
# VTA instructions and their dependence tokens

The instruction records built by the helper functions of `test_lib.cc` (`get2DLoadStoreInsn`,
`getGEMMInsn`, `getALUInsn`, `getFinishInsn`), and the way `printInstruction` accounts for their
dependence flags: which of the three modules runs an instruction, and which of the four queues each
flag pops or pushes.  `vtaNet` is that accounting as a token net.

The bit fields of the records are as wide as the hardware header says; the header is not part of
the repository, and the records here hold the values before truncation.
-/

namespace ThreeLaSim

open TokenNet

/-! ## Configuration -/

/-- The hardware constants the tests are compiled with. -/
structure VtaConfig where
  vtaBatch : ℕ
  vtaBlockIn : ℕ
  vtaBlockOut : ℕ
  uopBuffDepth : ℕ
  inpBuffDepth : ℕ
  wgtBuffDepth : ℕ
  accBuffDepth : ℕ
  vtaBatch_pos : 0 < vtaBatch
  vtaBlockIn_pos : 0 < vtaBlockIn
  vtaBlockOut_pos : 0 < vtaBlockOut

/-- The block shape of the recorded runs, with buffers of 2048 entries. -/
def config16 : VtaConfig where
  vtaBatch := 1
  vtaBlockIn := 16
  vtaBlockOut := 16
  uopBuffDepth := 2048
  inpBuffDepth := 2048
  wgtBuffDepth := 2048
  accBuffDepth := 2048
  vtaBatch_pos := by decide
  vtaBlockIn_pos := by decide
  vtaBlockOut_pos := by decide

/-! ## Instruction records -/

/-- The four dependence flags every instruction carries. -/
structure DepFlags where
  popPrevDep : Bool
  popNextDep : Bool
  pushPrevDep : Bool
  pushNextDep : Bool
  deriving DecidableEq, Repr

/-- Opcodes of a memory instruction. -/
inductive MemOpcode
  | load
  | store
  deriving DecidableEq, Repr

/-- The on-chip memory a memory instruction names. -/
inductive MemId
  | uop
  | wgt
  | inp
  | acc
  | out
  deriving DecidableEq, Repr

/-- Opcodes carried by a GEMM-shaped instruction. -/
inductive GemOpcode
  | gemm
  | finish
  deriving DecidableEq, Repr

/-- ALU opcodes; `other` is any value the reference ALU does not know. -/
inductive AluOpcode
  | min
  | max
  | add
  | shr
  | other (code : ℕ)
  deriving DecidableEq, Repr

/-- `VTAMemInsn`. -/
structure MemInsn where
  opcode : MemOpcode
  dep : DepFlags
  memoryType : MemId
  sramBase : ℕ
  dramBase : ℕ
  ySize : ℕ
  xSize : ℕ
  xStride : ℕ
  yPad0 : ℕ
  yPad1 : ℕ
  xPad0 : ℕ
  xPad1 : ℕ
  deriving DecidableEq, Repr

/-- `VTAGemInsn`. -/
structure GemInsn where
  opcode : GemOpcode
  dep : DepFlags
  resetReg : Bool
  uopBgn : ℕ
  uopEnd : ℕ
  iterOut : ℕ
  iterIn : ℕ
  dstFactorOut : ℕ
  dstFactorIn : ℕ
  srcFactorOut : ℕ
  srcFactorIn : ℕ
  wgtFactorOut : ℕ
  wgtFactorIn : ℕ
  deriving DecidableEq, Repr

/-- `VTAAluInsn`. -/
structure AluInsn where
  dep : DepFlags
  resetReg : Bool
  uopBgn : ℕ
  uopEnd : ℕ
  iterOut : ℕ
  iterIn : ℕ
  dstFactorOut : ℕ
  dstFactorIn : ℕ
  srcFactorOut : ℕ
  srcFactorIn : ℕ
  aluOpcode : AluOpcode
  useImm : Bool
  imm : ℤ
  deriving DecidableEq, Repr

/-- The instruction union, with the view its opcode selects. -/
inductive Insn
  | mem (insn : MemInsn)
  | gem (insn : GemInsn)
  | alu (insn : AluInsn)
  deriving DecidableEq, Repr

/-- The dependence flags, which all views keep in the same place. -/
def Insn.dep : Insn → DepFlags
  | .mem insn => insn.dep
  | .gem insn => insn.dep
  | .alu insn => insn.dep

/-! ## Building instructions -/

/-- `get2DLoadStoreInsn`. -/
def get2DLoadStoreInsn (opcode : MemOpcode) (type : MemId) (sramOffset dramOffset ySize xSize
    xStride yPad xPad : ℕ) (dep : DepFlags) : MemInsn where
  opcode := opcode
  dep := dep
  memoryType := type
  sramBase := sramOffset
  dramBase := dramOffset
  ySize := ySize
  xSize := xSize
  xStride := xStride
  yPad0 := yPad
  yPad1 := yPad
  xPad0 := xPad
  xPad1 := xPad

/-- `get1DLoadStoreInsn`. -/
def get1DLoadStoreInsn (opcode : MemOpcode) (type : MemId) (sramOffset dramOffset size : ℕ)
    (dep : DepFlags) : MemInsn where
  opcode := opcode
  dep := dep
  memoryType := type
  sramBase := sramOffset
  dramBase := dramOffset
  ySize := 1
  xSize := size
  xStride := size
  yPad0 := 0
  yPad1 := 0
  xPad0 := 0
  xPad1 := 0

/-- `getGEMMInsn`. -/
def getGEMMInsn (uopOffset batch inFeat outFeat : ℕ) (uopCompression : Bool) (dep : DepFlags) :
    GemInsn :=
  if !uopCompression then
    { opcode := .gemm, dep := dep, resetReg := false
      uopBgn := uopOffset, uopEnd := uopOffset + batch * inFeat * outFeat
      iterOut := 1, iterIn := 1
      dstFactorOut := 0, srcFactorOut := 0, wgtFactorOut := 0
      dstFactorIn := 0, srcFactorIn := 0, wgtFactorIn := 0 }
  else
    { opcode := .gemm, dep := dep, resetReg := false
      uopBgn := uopOffset, uopEnd := uopOffset + batch
      iterOut := inFeat, iterIn := outFeat
      dstFactorOut := 0, srcFactorOut := 1, wgtFactorOut := 1
      dstFactorIn := 1, srcFactorIn := 0, wgtFactorIn := inFeat }

/-- `getALUInsn`. -/
def getALUInsn (opcode : AluOpcode) (vectorSize : ℕ) (useImm : Bool) (imm : ℤ)
    (uopCompression : Bool) (dep : DepFlags) : AluInsn :=
  if !uopCompression then
    { dep := dep, resetReg := false, uopBgn := 0, uopEnd := vectorSize, iterOut := 1, iterIn := 1
      dstFactorOut := 0, srcFactorOut := 0, dstFactorIn := 0, srcFactorIn := 0
      aluOpcode := opcode, useImm := useImm, imm := imm }
  else
    { dep := dep, resetReg := false, uopBgn := 0, uopEnd := 1, iterOut := 1, iterIn := vectorSize
      dstFactorOut := 0, srcFactorOut := 0, dstFactorIn := 1, srcFactorIn := 1
      aluOpcode := opcode, useImm := useImm, imm := imm }

/-- `getFinishInsn`. -/
def getFinishInsn (popPrev popNext : Bool) : GemInsn where
  opcode := .finish
  dep := ⟨popPrev, popNext, false, false⟩
  resetReg := false
  uopBgn := 0
  uopEnd := 0
  iterOut := 0
  iterIn := 0
  dstFactorOut := 0
  dstFactorIn := 0
  srcFactorOut := 0
  srcFactorIn := 0
  wgtFactorOut := 0
  wgtFactorIn := 0

@[simp] lemma getGEMMInsn_dep (uopOffset batch inFeat outFeat : ℕ) (c : Bool) (dep : DepFlags) :
    (getGEMMInsn uopOffset batch inFeat outFeat c dep).dep = dep := by
  cases c <;> rfl

@[simp] lemma getGEMMInsn_opcode (uopOffset batch inFeat outFeat : ℕ) (c : Bool) (dep : DepFlags) :
    (getGEMMInsn uopOffset batch inFeat outFeat c dep).opcode = .gemm := by
  cases c <;> rfl

@[simp] lemma getALUInsn_dep (opcode : AluOpcode) (vectorSize : ℕ) (useImm : Bool) (imm : ℤ)
    (c : Bool) (dep : DepFlags) : (getALUInsn opcode vectorSize useImm imm c dep).dep = dep := by
  cases c <;> rfl

/-! ## Routing and queue effects -/

/-- The three modules that run instructions. -/
inductive Module
  | load
  | compute
  | store
  deriving DecidableEq, Repr

/-- The four dependence queues; `l2g` leads from the load to the compute module. -/
inductive DepQueue
  | l2g
  | g2l
  | g2s
  | s2g
  deriving DecidableEq, Repr

/-- The module an instruction is accounted to. -/
def Insn.module : Insn → Module
  | .mem insn =>
      match insn.opcode, insn.memoryType with
      | .store, _ => .store
      | .load, .inp => .load
      | .load, .wgt => .load
      | .load, _ => .compute
  | .gem _ => .compute
  | .alu _ => .compute

/-- How many tokens an instruction takes from a queue: the `--` branches of `printInstruction`. -/
def Insn.pops (insn : Insn) (q : DepQueue) : ℕ :=
  match insn.module, q with
  | .store, .g2s => insn.dep.popPrevDep.toNat
  | .load, .g2l => insn.dep.popNextDep.toNat
  | .compute, .l2g => insn.dep.popPrevDep.toNat
  | .compute, .s2g => insn.dep.popNextDep.toNat
  | _, _ => 0

/-- How many tokens an instruction puts into a queue: the `++` branches of `printInstruction`. -/
def Insn.pushes (insn : Insn) (q : DepQueue) : ℕ :=
  match insn.module, q with
  | .store, .s2g => insn.dep.pushPrevDep.toNat
  | .load, .l2g => insn.dep.pushNextDep.toNat
  | .compute, .g2l => insn.dep.pushPrevDep.toNat
  | .compute, .g2s => insn.dep.pushNextDep.toNat
  | _, _ => 0

/-- The module that pops a queue. -/
def DepQueue.consumer : DepQueue → Module
  | .l2g => .compute
  | .g2l => .load
  | .g2s => .store
  | .s2g => .compute

/-- The module that pushes into a queue. -/
def DepQueue.producer : DepQueue → Module
  | .l2g => .load
  | .g2l => .compute
  | .g2s => .compute
  | .s2g => .store

/-- The token net of the accounting in `printInstruction`. -/
def vtaNet : Net Module DepQueue Insn where
  owner := Insn.module
  pops := Insn.pops
  pushes := Insn.pushes
  consumer := DepQueue.consumer
  producer := DepQueue.producer
  pops_owner insn q h := by
    cases hm : insn.module <;> cases q <;> simp_all [Insn.pops, DepQueue.consumer]
  pushes_owner insn q h := by
    cases hm : insn.module <;> cases q <;> simp_all [Insn.pushes, DepQueue.producer]

/-- The four counters `printInstruction` keeps. -/
structure QueueCounts where
  l2gQueue : ℤ
  g2lQueue : ℤ
  s2gQueue : ℤ
  g2sQueue : ℤ
  deriving DecidableEq, Repr

/-- The branch of `printInstruction` shared by everything the compute module runs. -/
def QueueCounts.accountCompute (c : QueueCounts) (dep : DepFlags) : QueueCounts where
  l2gQueue := if dep.popPrevDep then c.l2gQueue - 1 else c.l2gQueue
  g2lQueue := if dep.pushPrevDep then c.g2lQueue + 1 else c.g2lQueue
  s2gQueue := if dep.popNextDep then c.s2gQueue - 1 else c.s2gQueue
  g2sQueue := if dep.pushNextDep then c.g2sQueue + 1 else c.g2sQueue

/-- The counter updates of `printInstruction` for one instruction. -/
def QueueCounts.account (c : QueueCounts) : Insn → QueueCounts
  | .mem m =>
      if m.opcode = .store then
        { c with
          g2sQueue := if m.dep.popPrevDep then c.g2sQueue - 1 else c.g2sQueue
          s2gQueue := if m.dep.pushPrevDep then c.s2gQueue + 1 else c.s2gQueue }
      else if m.memoryType = .inp ∨ m.memoryType = .wgt then
        { c with
          g2lQueue := if m.dep.popNextDep then c.g2lQueue - 1 else c.g2lQueue
          l2gQueue := if m.dep.pushNextDep then c.l2gQueue + 1 else c.l2gQueue }
      else c.accountCompute m.dep
  | .gem g => c.accountCompute g.dep
  | .alu a => c.accountCompute a.dep

/-- The counters after a stream. -/
def queueAccount (insns : List Insn) : QueueCounts :=
  insns.foldl QueueCounts.account ⟨0, 0, 0, 0⟩

/-- One counter of the record. -/
def QueueCounts.get (c : QueueCounts) : DepQueue → ℤ
  | .l2g => c.l2gQueue
  | .g2l => c.g2lQueue
  | .g2s => c.g2sQueue
  | .s2g => c.s2gQueue

lemma ite_sub_one (b : Bool) (x : ℤ) : (if b then x - 1 else x) = x - b.toNat := by
  cases b <;> simp

lemma ite_add_one (b : Bool) (x : ℤ) : (if b then x + 1 else x) = x + b.toNat := by
  cases b <;> simp

lemma accountCompute_get (c : QueueCounts) {insn : Insn} (h : insn.module = .compute)
    (q : DepQueue) :
    (c.accountCompute insn.dep).get q = c.get q - insn.pops q + insn.pushes q := by
  cases q <;>
    simp [QueueCounts.accountCompute, QueueCounts.get, Insn.pops, Insn.pushes, h, ite_sub_one,
      ite_add_one]

/-- **`vtaNet` is the accounting of `printInstruction`**: each counter moves by the pushes minus
the pops. -/
theorem account_get (c : QueueCounts) (insn : Insn) (q : DepQueue) :
    (c.account insn).get q = c.get q - insn.pops q + insn.pushes q := by
  cases insn with
  | gem g => exact @accountCompute_get c (.gem g) rfl q
  | alu a => exact @accountCompute_get c (.alu a) rfl q
  | mem m =>
      cases hop : m.opcode with
      | store =>
          have hm : (Insn.mem m).module = .store := by simp [Insn.module, hop]
          cases q <;>
            simp [QueueCounts.account, QueueCounts.get, Insn.pops, Insn.pushes, hm, hop, Insn.dep,
              ite_sub_one, ite_add_one]
      | load =>
          by_cases hty : m.memoryType = .inp ∨ m.memoryType = .wgt
          · have hm : (Insn.mem m).module = .load := by
              rcases hty with h | h <;> simp [Insn.module, hop, h]
            cases q <;>
              simp [QueueCounts.account, QueueCounts.get, Insn.pops, Insn.pushes, hm, hop, hty,
                Insn.dep, ite_sub_one, ite_add_one]
          · have hm : (Insn.mem m).module = .compute := by
              cases hmt : m.memoryType <;> simp_all [Insn.module]
            rw [← accountCompute_get c hm]
            simp [QueueCounts.account, hop, hty, Insn.dep]

/-- The counters after a stream are its pushes minus its pops. -/
lemma queueAccount_get (insns : List Insn) (q : DepQueue) :
    (queueAccount insns).get q = (tokens Insn.pushes q insns : ℤ) - tokens Insn.pops q insns := by
  induction insns using List.reverseRecOn with
  | nil => cases q <;> rfl
  | append_singleton insns i ih =>
      rw [queueAccount, List.foldl_append, List.foldl_cons, List.foldl_nil, account_get]
      rw [queueAccount] at ih
      rw [ih]
      simp only [tokens_append, tokens_cons, tokens_nil]
      omega

/-- What a replay leaves in the queues is what `printInstruction` prints. -/
theorem queueAccount_eq_of_replay {insns : List Insn} {d : DepQueue → ℕ}
    (h : vtaNet.Replay (fun _ => 0) insns d) (q : DepQueue) :
    (queueAccount insns).get q = d q := by
  have htok : d q + tokens Insn.pops q insns = 0 + tokens Insn.pushes q insns := h.tokens_eq q
  rw [queueAccount_get]
  omega

end ThreeLaSim
