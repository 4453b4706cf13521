import ThreeLaSim.Core.IntExpr
import ThreeLaSim.Core.LoopNest
import ThreeLaSim.Vta.Insn

/-!
# The instruction streams of the three VTA tests

`alu_test`, `blocked_gemm_test` and `gemm_test` of `test_lib.cc` up to the point where the
instruction buffer is complete: the assertions on the parameters, the derived sizes, and the
instructions in the order they are written to `insn_buf`.

Sizes and offsets are `int`s in the source.  Here they are natural numbers, the exact values; the
formulas whose range matters stand beside them as expressions (`IntExpr`), which can overflow.

The instructions of `blocked_gemm_test` carry a label saying which loop turn wrote them; the label
is not part of the stream (`blockedGemmInsns` drops it) and no flag or field depends on it.
-/

namespace ThreeLaSim

open LoopNest

/-! ## `alu_test` -/

/-- The parameters of `alu_test`, with the immediates it draws for each batch block. -/
structure AluTest where
  opcode : AluOpcode
  useImm : Bool
  batch : ℕ
  vectorSize : ℕ
  uopCompression : Bool
  immediate : ℕ → ℤ

namespace AluTest

variable (cfg : VtaConfig) (p : AluTest)

def insSize : ℕ := 3 * p.batch / cfg.vtaBatch + 2

def uopSize : ℕ := if p.uopCompression then 1 else p.vectorSize / cfg.vtaBlockOut

def txSize : ℕ := p.vectorSize / cfg.vtaBlockOut

def inputSets : ℕ := if p.useImm then 1 else 2

/-- The assertions on the parameters of `alu_test`. -/
structure Divides : Prop where
  batch_mod : p.batch % cfg.vtaBatch = 0
  vectorSize_mod : p.vectorSize % cfg.vtaBlockOut = 0

instance : Decidable (p.Divides cfg) :=
  decidable_of_iff (p.batch % cfg.vtaBatch = 0 ∧ p.vectorSize % cfg.vtaBlockOut = 0)
    ⟨fun h => ⟨h.1, h.2⟩, fun h => ⟨h.1, h.2⟩⟩

/-- The assertions `alu_test` makes. -/
structure Asserts : Prop extends Divides cfg p where
  uopSize_le : p.uopSize cfg ≤ cfg.uopBuffDepth
  txSize_le : p.txSize cfg * p.inputSets ≤ cfg.accBuffDepth

/-- The load of one batch block (pop next if not first). -/
def loadInsn (b : ℕ) : MemInsn :=
  get2DLoadStoreInsn .load .acc 0
    (b / cfg.vtaBatch * p.txSize cfg * p.inputSets)
    1 (p.txSize cfg * p.inputSets) (p.txSize cfg * p.inputSets) 0 0
    ⟨false, decide (b > 0), false, false⟩

/-- The ALU instruction of one batch block (push next). -/
def aluInsn (b : ℕ) : AluInsn :=
  getALUInsn p.opcode (p.txSize cfg) p.useImm (p.immediate (b / cfg.vtaBatch)) p.uopCompression
    ⟨false, false, false, true⟩

/-- The store of one batch block (pop prev, push prev). -/
def storeInsn (b : ℕ) : MemInsn :=
  get2DLoadStoreInsn .store .out 0 (b / cfg.vtaBatch * p.txSize cfg)
    1 (p.txSize cfg) (p.txSize cfg) 0 0 ⟨true, false, true, false⟩

/-- The instruction buffer of `alu_test`. -/
def insns : List Insn :=
  [.mem (get1DLoadStoreInsn .load .uop 0 0 (p.uopSize cfg) ⟨false, false, false, false⟩)] ++
  ((upTo p.batch cfg.vtaBatch).flatMap fun b =>
    [.mem (p.loadInsn cfg b), .alu (p.aluInsn cfg b), .mem (p.storeInsn cfg b)]) ++
  [.gem (getFinishInsn false true)]

end AluTest

/-! ## `gemm_test` -/

/-- The parameters of `gemm_test`. -/
structure GemmTest where
  batch : ℕ
  inChannels : ℕ
  outChannels : ℕ
  uopCompression : Bool

namespace GemmTest

variable (cfg : VtaConfig) (p : GemmTest)

def insSize : ℕ := 7

def uopSize : ℕ :=
  if p.uopCompression then p.batch / cfg.vtaBatch
  else p.batch / cfg.vtaBatch * p.inChannels / cfg.vtaBlockIn * p.outChannels / cfg.vtaBlockOut

def inpSize : ℕ := p.batch / cfg.vtaBatch * p.inChannels / cfg.vtaBlockIn

def wgtSize : ℕ := p.inChannels / cfg.vtaBlockIn * p.outChannels / cfg.vtaBlockOut

def outSize : ℕ := p.batch / cfg.vtaBatch * p.outChannels / cfg.vtaBlockOut

/-- `out_size`, as it is computed. -/
def outSizeExpr : IntExpr := ↑p.batch / ↑cfg.vtaBatch * ↑p.outChannels / ↑cfg.vtaBlockOut

/-- The assertions on the parameters of `gemm_test`. -/
structure Divides : Prop where
  batch_mod : p.batch % cfg.vtaBatch = 0
  inChannels_mod : p.inChannels % cfg.vtaBlockIn = 0
  outChannels_mod : p.outChannels % cfg.vtaBlockOut = 0

instance : Decidable (p.Divides cfg) :=
  decidable_of_iff (p.batch % cfg.vtaBatch = 0 ∧ p.inChannels % cfg.vtaBlockIn = 0 ∧
    p.outChannels % cfg.vtaBlockOut = 0)
    ⟨fun ⟨h₁, h₂, h₃⟩ => ⟨h₁, h₂, h₃⟩, fun h => ⟨h.1, h.2, h.3⟩⟩

/-- The assertions `gemm_test` makes. -/
structure Asserts : Prop extends Divides cfg p where
  uopSize_le : p.uopSize cfg ≤ cfg.uopBuffDepth
  inpSize_le : p.inpSize cfg ≤ cfg.inpBuffDepth
  wgtSize_le : p.wgtSize cfg ≤ cfg.wgtBuffDepth
  outSize_le : p.outSize cfg ≤ cfg.accBuffDepth

/-- The instruction buffer of `gemm_test`. -/
def insns : List Insn :=
  [.mem (get1DLoadStoreInsn .load .uop 0 0 (p.uopSize cfg) ⟨false, false, false, false⟩),
   .mem (get1DLoadStoreInsn .load .acc 0 0 (p.outSize cfg) ⟨false, false, true, false⟩),
   .mem (get1DLoadStoreInsn .load .wgt 0 0 (p.wgtSize cfg) ⟨false, true, false, false⟩),
   .mem (get1DLoadStoreInsn .load .inp 0 0 (p.inpSize cfg) ⟨false, false, false, true⟩),
   .gem (getGEMMInsn 0 (p.batch / cfg.vtaBatch) (p.inChannels / cfg.vtaBlockIn)
     (p.outChannels / cfg.vtaBlockOut) p.uopCompression ⟨true, false, false, true⟩),
   .mem (get1DLoadStoreInsn .store .out 0 0 (p.outSize cfg) ⟨true, false, true, false⟩),
   .gem (getFinishInsn false true)]

end GemmTest

/-! ## `blocked_gemm_test` -/

/-- The parameters of `blocked_gemm_test`. -/
structure BlockedGemm where
  batch : ℕ
  channels : ℕ
  block : ℕ
  uopCompression : Bool
  virtualThreads : ℕ

/-- Which loop turn of `blocked_gemm_test` wrote an instruction; `kl` is `k + l`. -/
inductive GemmLabel
  | uop
  | acc (i j : ℕ)
  | wgt (i j kl : ℕ)
  | inp (i j kl : ℕ)
  | gemm (i j kl : ℕ)
  | store (i j : ℕ)
  | finish
  deriving DecidableEq, Repr

namespace BlockedGemm

variable (cfg : VtaConfig) (p : BlockedGemm)

def inFeat : ℕ := p.channels

def outFeat : ℕ := p.channels

def insSize : ℕ :=
  p.batch / p.block * p.outFeat / p.block * (2 + p.inFeat / p.block * 3) + 2

def uopSize : ℕ :=
  if p.uopCompression then p.block / cfg.vtaBatch * p.virtualThreads
  else p.block / cfg.vtaBatch * p.block / cfg.vtaBlockIn * p.block / cfg.vtaBlockOut
    * p.virtualThreads

def inpSize : ℕ := p.batch / cfg.vtaBatch * p.inFeat / cfg.vtaBlockIn

def wgtSize : ℕ := p.inFeat / cfg.vtaBlockIn * p.outFeat / cfg.vtaBlockOut

def outSize : ℕ := p.batch / cfg.vtaBatch * p.outFeat / cfg.vtaBlockOut

def inpBlockSize : ℕ := p.block / cfg.vtaBatch * p.block / cfg.vtaBlockIn

def wgtBlockSize : ℕ := p.block / cfg.vtaBlockIn * p.block / cfg.vtaBlockOut

def outBlockSize : ℕ := p.block / cfg.vtaBatch * p.block / cfg.vtaBlockOut

/-! The sizes as they are computed. -/

def insSizeExpr : IntExpr :=
  ↑p.batch / ↑p.block * ↑p.outFeat / ↑p.block * (.var 2 + ↑p.inFeat / ↑p.block * .var 3) + .var 2

def uopSizeExpr : IntExpr :=
  if p.uopCompression then ↑p.block / ↑cfg.vtaBatch * ↑p.virtualThreads
  else ↑p.block / ↑cfg.vtaBatch * ↑p.block / ↑cfg.vtaBlockIn * ↑p.block / ↑cfg.vtaBlockOut
    * ↑p.virtualThreads

def inpSizeExpr : IntExpr := ↑p.batch / ↑cfg.vtaBatch * ↑p.inFeat / ↑cfg.vtaBlockIn

def wgtSizeExpr : IntExpr := ↑p.inFeat / ↑cfg.vtaBlockIn * ↑p.outFeat / ↑cfg.vtaBlockOut

def outSizeExpr : IntExpr := ↑p.batch / ↑cfg.vtaBatch * ↑p.outFeat / ↑cfg.vtaBlockOut

/-! The DRAM offsets of a tile and of a step, as they are computed. -/

def outOffsetExpr (i j : ℕ) : IntExpr :=
  (↑i / ↑cfg.vtaBatch * ↑p.outFeat + ↑j) / ↑cfg.vtaBlockOut

def wgtOffsetExpr (j k l : ℕ) : IntExpr :=
  (↑j / ↑cfg.vtaBlockOut * ↑p.inFeat + ↑k + ↑l) / ↑cfg.vtaBlockIn

def inpOffsetExpr (i k l : ℕ) : IntExpr :=
  (↑i / ↑cfg.vtaBatch * ↑p.inFeat + ↑k + ↑l) / ↑cfg.vtaBlockIn

/-- The assertions on the parameters of `blocked_gemm_test`. -/
structure Divides : Prop where
  block_mod_blockIn : p.block % cfg.vtaBlockIn = 0
  block_mod_blockOut : p.block % cfg.vtaBlockOut = 0
  block_mod_batch : p.block % cfg.vtaBatch = 0
  channels_mod : p.channels % p.block = 0
  batch_mod : p.batch % p.block = 0

instance : Decidable (p.Divides cfg) :=
  decidable_of_iff (p.block % cfg.vtaBlockIn = 0 ∧ p.block % cfg.vtaBlockOut = 0 ∧
    p.block % cfg.vtaBatch = 0 ∧ p.channels % p.block = 0 ∧ p.batch % p.block = 0)
    ⟨fun ⟨h₁, h₂, h₃, h₄, h₅⟩ => ⟨h₁, h₂, h₃, h₄, h₅⟩, fun h => ⟨h.1, h.2, h.3, h.4, h.5⟩⟩

/-- The assertions `blocked_gemm_test` makes. -/
structure Asserts : Prop extends Divides cfg p where
  uopSize_le : p.uopSize cfg ≤ cfg.uopBuffDepth
  inpBlockSize_le : p.inpBlockSize cfg ≤ cfg.inpBuffDepth
  wgtBlockSize_le : p.wgtBlockSize cfg ≤ cfg.wgtBuffDepth
  outBlockSize_le : p.outBlockSize cfg ≤ cfg.accBuffDepth

namespace Divides

variable {cfg p} (h : p.Divides cfg)
include h

lemma blockIn_dvd : cfg.vtaBlockIn ∣ p.block := Nat.dvd_of_mod_eq_zero h.block_mod_blockIn

lemma blockOut_dvd : cfg.vtaBlockOut ∣ p.block := Nat.dvd_of_mod_eq_zero h.block_mod_blockOut

lemma vtaBatch_dvd : cfg.vtaBatch ∣ p.block := Nat.dvd_of_mod_eq_zero h.block_mod_batch

lemma block_dvd_channels : p.block ∣ p.channels := Nat.dvd_of_mod_eq_zero h.channels_mod

lemma block_dvd_batch : p.block ∣ p.batch := Nat.dvd_of_mod_eq_zero h.batch_mod

end Divides

/-- `pop`: whether the weight load of a step pops a token. -/
def pop (i j k l : ℕ) : Bool :=
  if p.virtualThreads = 1 then true
  else (decide (i > 0) || decide (j > 0) || decide (k > 0) || decide (l > 0))
    && decide ((k + l : ℤ) ≠ p.block * p.virtualThreads - p.block)

/-- `push_prev`: whether the GEMM of a step hands the buffers back to the load module. -/
def pushPrev (i j k l : ℕ) : Bool :=
  if p.virtualThreads = 1 then decide ((k + l : ℤ) ≠ p.inFeat - p.block)
  else decide ((k + l : ℤ) ≠ p.inFeat - p.virtualThreads * p.block)
    && (decide ((k + l : ℤ) ≠ p.inFeat - p.block) || decide ((j : ℤ) ≠ p.outFeat - p.block)
      || decide ((i : ℤ) ≠ p.batch - p.block))

/-- `push_next`: whether the GEMM of a step is the last of its tile. -/
def pushNext (k l : ℕ) : Bool := decide ((k + l : ℤ) = p.inFeat - p.block)

/-- Load uops. -/
def uopInsn : MemInsn :=
  get1DLoadStoreInsn .load .uop 0 0 (p.uopSize cfg) ⟨false, false, false, false⟩

/-- Load bias block (pop next if not first, push prev). -/
def accInsn (i j : ℕ) : MemInsn :=
  get2DLoadStoreInsn .load .acc 0
    ((i / cfg.vtaBatch * p.outFeat + j) / cfg.vtaBlockOut)
    (p.block / cfg.vtaBatch) (p.block / cfg.vtaBlockOut) (p.outFeat / cfg.vtaBlockOut) 0 0
    ⟨false, decide (i > 0) || decide (j > 0), decide (p.virtualThreads = 1), false⟩

/-- Load weight block (pop next). -/
def wgtInsn (i j k l : ℕ) : MemInsn :=
  get2DLoadStoreInsn .load .wgt
    (l / cfg.vtaBlockIn * p.block / cfg.vtaBlockOut)
    ((j / cfg.vtaBlockOut * p.inFeat + k + l) / cfg.vtaBlockIn)
    (p.block / cfg.vtaBlockOut) (p.block / cfg.vtaBlockIn) (p.inFeat / cfg.vtaBlockIn) 0 0
    ⟨false, p.pop i j k l, false, false⟩

/-- Load input block (push next). -/
def inpInsn (i k l : ℕ) : MemInsn :=
  get2DLoadStoreInsn .load .inp
    (l / cfg.vtaBlockIn * p.block / cfg.vtaBatch)
    ((i / cfg.vtaBatch * p.inFeat + k + l) / cfg.vtaBlockIn)
    (p.block / cfg.vtaBatch) (p.block / cfg.vtaBlockIn) (p.inFeat / cfg.vtaBlockIn) 0 0
    ⟨false, false, false, true⟩

/-- Perform GEMM (pop prev, push prev if not last, push next if last). -/
def gemmInsn (i j k l : ℕ) : GemInsn :=
  getGEMMInsn (l / p.block * p.uopSize cfg / p.virtualThreads)
    (p.block / cfg.vtaBatch) (p.block / cfg.vtaBlockIn) (p.block / cfg.vtaBlockOut)
    p.uopCompression ⟨true, false, p.pushPrev i j k l, p.pushNext k l⟩

/-- Store output block (pop prev, push prev). -/
def storeInsn (i j : ℕ) : MemInsn :=
  get2DLoadStoreInsn .store .out 0
    ((i / cfg.vtaBatch * p.outFeat + j) / cfg.vtaBlockOut)
    (p.block / cfg.vtaBatch) (p.block / cfg.vtaBlockOut) (p.outFeat / cfg.vtaBlockOut) 0 0
    ⟨true, false, true, false⟩

/-- The three instructions of one turn of the innermost loop. -/
def stepInsns (i j k l : ℕ) : List (GemmLabel × Insn) :=
  [(.wgt i j (k + l), .mem (p.wgtInsn cfg i j k l)),
   (.inp i j (k + l), .mem (p.inpInsn cfg i k l)),
   (.gemm i j (k + l), .gem (p.gemmInsn cfg i j k l))]

/-- The instruction buffer of `blocked_gemm_test`, with labels. -/
def labelled : List (GemmLabel × Insn) :=
  [(.uop, .mem (p.uopInsn cfg))] ++
  ((upTo p.batch p.block).flatMap fun i =>
    (upTo p.outFeat p.block).flatMap fun j =>
      [(.acc i j, .mem (p.accInsn cfg i j))] ++
      ((upTo p.inFeat (p.block * p.virtualThreads)).flatMap fun k =>
        (upTo (p.block * p.virtualThreads) p.block).flatMap fun l => p.stepInsns cfg i j k l) ++
      [(.store i j, .mem (p.storeInsn cfg i j))]) ++
  [(.finish, .gem (getFinishInsn false true))]

/-- The instruction buffer of `blocked_gemm_test`. -/
def insns : List Insn := (p.labelled cfg).map Prod.snd

end BlockedGemm

end ThreeLaSim
