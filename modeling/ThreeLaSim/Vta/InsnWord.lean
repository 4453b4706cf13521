import ThreeLaSim.Core.FieldLayout
import ThreeLaSim.Vta.Uops

/-!
# Instructions and micro-ops as words

`printInstruction` and `printMicroOp` print the words that the records are laid out in, and the model
behind the ports reads them.  The layout is that of the hardware header, which is not part of the
repository, so it is a parameter here.  `logFormat` is the layout of the words in `vivado_hls.log`, next
to each of which the log has its fields.

* **`logFormat`** — records whose fields fit are read back as they were printed.
-/

namespace ThreeLaSim

open FieldLayout

/-- How instructions and micro-ops are laid out in words, and read. -/
structure InsnFormat where
  insnWord : Insn → ℕ
  readInsn : ℕ → Option Insn
  InsnFits : Insn → Prop
  uopWord : Uop → ℕ
  readUop : ℕ → Uop
  UopFits : Uop → Prop
  readInsn_insnWord : ∀ i, InsnFits i → readInsn (insnWord i) = some i
  readUop_uopWord : ∀ u, UopFits u → readUop (uopWord u) = u
  insnWord_lt : ∀ i, InsnFits i → insnWord i < 2 ^ 128
  uopWord_lt : ∀ u, UopFits u → uopWord u < 2 ^ 32

/-! ## Codes -/

/-- A flag of one bit. -/
def flagField (b : Bool) : Field := ⟨1, b.toNat⟩

/-- The opcodes of memory instructions. -/
def MemOpcode.code : MemOpcode → ℕ
  | .load => 0
  | .store => 1

/-- The opcodes of GEMM-shaped instructions. -/
def GemOpcode.code : GemOpcode → ℕ
  | .gemm => 2
  | .finish => 3

/-- The memory types, as far as two bits hold them: that of a store is lost. -/
def MemId.code : MemId → ℕ
  | .uop => 0
  | .wgt => 1
  | .inp => 2
  | .acc => 3
  | .out => 0

/-- The ALU opcodes. -/
def AluOpcode.code : AluOpcode → ℕ
  | .min => 0
  | .max => 1
  | .add => 2
  | .shr => 3
  | .other c => c

/-- The memory that an instruction with this opcode and type names. -/
def readMemId (opcode type : ℕ) : MemId :=
  if opcode = 1 then .out else
    match type with
    | 0 => .uop
    | 1 => .wgt
    | 2 => .inp
    | _ => .acc

def readAluOpcode : ℕ → AluOpcode
  | 0 => .min
  | 1 => .max
  | 2 => .add
  | _ => .shr

/-- Sixteen bits as a signed number. -/
def readImm (n : ℕ) : ℤ := (n : ℤ).bmod (2 ^ 16)

/-! ## Fields -/

/-- The dependence flags. -/
def DepFlags.fields (d : DepFlags) : List Field :=
  [flagField d.popPrevDep, flagField d.popNextDep, flagField d.pushPrevDep, flagField d.pushNextDep]

def MemInsn.fields (m : MemInsn) : List Field :=
  ⟨3, m.opcode.code⟩ :: m.dep.fields ++
    [⟨2, m.memoryType.code⟩, ⟨16, m.sramBase⟩, ⟨32, m.dramBase⟩, ⟨7, 0⟩, ⟨16, m.ySize⟩, ⟨16, m.xSize⟩,
      ⟨16, m.xStride⟩, ⟨4, m.yPad0⟩, ⟨4, m.yPad1⟩, ⟨4, m.xPad0⟩, ⟨4, m.xPad1⟩]

def GemInsn.fields (g : GemInsn) : List Field :=
  ⟨3, g.opcode.code⟩ :: g.dep.fields ++
    [flagField g.resetReg, ⟨13, g.uopBgn⟩, ⟨14, g.uopEnd⟩, ⟨14, g.iterOut⟩, ⟨14, g.iterIn⟩, ⟨1, 0⟩,
      ⟨11, g.dstFactorOut⟩, ⟨11, g.dstFactorIn⟩, ⟨11, g.srcFactorOut⟩, ⟨11, g.srcFactorIn⟩,
      ⟨10, g.wgtFactorOut⟩, ⟨10, g.wgtFactorIn⟩]

def AluInsn.fields (a : AluInsn) : List Field :=
  ⟨3, 4⟩ :: a.dep.fields ++
    [flagField a.resetReg, ⟨13, a.uopBgn⟩, ⟨14, a.uopEnd⟩, ⟨14, a.iterOut⟩, ⟨14, a.iterIn⟩, ⟨1, 0⟩,
      ⟨11, a.dstFactorOut⟩, ⟨11, a.dstFactorIn⟩, ⟨11, a.srcFactorOut⟩, ⟨11, a.srcFactorIn⟩,
      ⟨2, a.aluOpcode.code⟩, flagField a.useImm, ⟨16, (a.imm % 2 ^ 16).toNat⟩, ⟨1, 0⟩]

def Uop.fields (u : Uop) : List Field := [⟨11, u.dstIdx⟩, ⟨11, u.srcIdx⟩, ⟨10, u.wgtIdx⟩]

/-- The fields of an instruction, from the low bits up. -/
def Insn.fields : Insn → List Field
  | .mem m => m.fields
  | .gem g => g.fields
  | .alu a => a.fields

/-- One of the four opcodes. -/
def AluOpcode.Known (op : AluOpcode) : Prop := op ∈ [.min, .max, .add, .shr]

instance : DecidablePred AluOpcode.Known := fun op =>
  inferInstanceAs (Decidable (op ∈ [AluOpcode.min, .max, .add, .shr]))

/-- What the fields do not hold: a load names an on-chip memory other than the outputs and a store
these, the ALU opcode is one of the four, and an immediate has 16 bits. -/
def Insn.Plain : Insn → Prop
  | .mem m => m.opcode = .store ↔ m.memoryType = .out
  | .gem _ => True
  | .alu a => a.aluOpcode.Known ∧ -2 ^ 15 ≤ a.imm ∧ a.imm < 2 ^ 15

instance : DecidablePred Insn.Plain := fun i =>
  match i with
  | .mem m => inferInstanceAs (Decidable (m.opcode = .store ↔ m.memoryType = .out))
  | .gem _ => inferInstanceAs (Decidable True)
  | .alu a => inferInstanceAs (Decidable (a.aluOpcode.Known ∧ -2 ^ 15 ≤ a.imm ∧ a.imm < 2 ^ 15))

/-! ## Reading a word -/

/-- The layouts of the three kinds of instruction. -/
def memWidths : List ℕ := [3, 1, 1, 1, 1, 2, 16, 32, 7, 16, 16, 16, 4, 4, 4, 4]

def gemWidths : List ℕ := [3, 1, 1, 1, 1, 1, 13, 14, 14, 14, 1, 11, 11, 11, 11, 10, 10]

def aluWidths : List ℕ := [3, 1, 1, 1, 1, 1, 13, 14, 14, 14, 1, 11, 11, 11, 11, 2, 1, 16, 1]

def readMem : List ℕ → Option Insn
  | [op, popPrev, popNext, pushPrev, pushNext, type, sram, dram, _, ySize, xSize, xStride, yPad0,
      yPad1, xPad0, xPad1] => some <| .mem
      { opcode := if op = 1 then .store else .load
        dep := ⟨popPrev = 1, popNext = 1, pushPrev = 1, pushNext = 1⟩
        memoryType := readMemId op type
        sramBase := sram, dramBase := dram, ySize := ySize, xSize := xSize, xStride := xStride
        yPad0 := yPad0, yPad1 := yPad1, xPad0 := xPad0, xPad1 := xPad1 }
  | _ => none

def readGem : List ℕ → Option Insn
  | [op, popPrev, popNext, pushPrev, pushNext, reset, uopBgn, uopEnd, iterOut, iterIn, _, dstOut, dstIn,
      srcOut, srcIn, wgtOut, wgtIn] => some <| .gem
      { opcode := if op = 2 then .gemm else .finish
        dep := ⟨popPrev = 1, popNext = 1, pushPrev = 1, pushNext = 1⟩
        resetReg := reset = 1
        uopBgn := uopBgn, uopEnd := uopEnd, iterOut := iterOut, iterIn := iterIn
        dstFactorOut := dstOut, dstFactorIn := dstIn, srcFactorOut := srcOut, srcFactorIn := srcIn
        wgtFactorOut := wgtOut, wgtFactorIn := wgtIn }
  | _ => none

def readAlu : List ℕ → Option Insn
  | [_, popPrev, popNext, pushPrev, pushNext, reset, uopBgn, uopEnd, iterOut, iterIn, _, dstOut, dstIn,
      srcOut, srcIn, aluOp, useImm, imm, _] => some <| .alu
      { dep := ⟨popPrev = 1, popNext = 1, pushPrev = 1, pushNext = 1⟩
        resetReg := reset = 1
        uopBgn := uopBgn, uopEnd := uopEnd, iterOut := iterOut, iterIn := iterIn
        dstFactorOut := dstOut, dstFactorIn := dstIn, srcFactorOut := srcOut, srcFactorIn := srcIn
        aluOpcode := readAluOpcode aluOp, useImm := useImm = 1, imm := readImm imm }
  | _ => none

def readUop (n : ℕ) : Uop := ⟨n % 2 ^ 11, n / 2 ^ 11 % 2 ^ 11, n / 2 ^ 11 / 2 ^ 11 % 2 ^ 10⟩

/-- The instruction in a word; the low three bits say how to read it. -/
def decodeInsn (n : ℕ) : Option Insn :=
  match n % 2 ^ 3 with
  | 0 | 1 => readMem (readFields memWidths n)
  | 2 | 3 => readGem (readFields gemWidths n)
  | 4 => readAlu (readFields aluWidths n)
  | _ => none

lemma readImm_emod {x : ℤ} (hlo : -2 ^ 15 ≤ x) (hhi : x < 2 ^ 15) :
    readImm (x % 2 ^ 16).toNat = x := by
  have hnat : ((x % 65536).toNat : ℤ) = x % 65536 := by omega
  have hfits : -32768 ≤ x ∧ x < 32768 := ⟨hlo, hhi⟩
  show ((x % 65536).toNat : ℤ).bmod 65536 = x
  rw [hnat, Int.bmod_def]
  omega

lemma readMem_fields {m : MemInsn} (h : (Insn.mem m).Plain) :
    readMem (m.fields.map Field.value) = some (.mem m) := by
  obtain ⟨op, ⟨_, _, _, _⟩, type, _, _, _, _, _, _, _, _, _⟩ := m
  have hplain : op = .store ↔ type = .out := h
  cases op <;> cases type <;>
    simp_all [MemInsn.fields, DepFlags.fields, flagField, readMem, readMemId, MemOpcode.code, MemId.code]

lemma readGem_fields (g : GemInsn) : readGem (g.fields.map Field.value) = some (.gem g) := by
  obtain ⟨op, ⟨_, _, _, _⟩, _⟩ := g
  cases op <;> simp [GemInsn.fields, DepFlags.fields, flagField, readGem, GemOpcode.code]

lemma readAlu_fields {a : AluInsn} (h : (Insn.alu a).Plain) :
    readAlu (a.fields.map Field.value) = some (.alu a) := by
  obtain ⟨hop, hlo, hhi⟩ := h
  have himm := readImm_emod hlo hhi
  obtain ⟨⟨_, _, _, _⟩, _, _, _, _, _, _, _, _, _, op, _, _⟩ := a
  cases op with
  | other c => simp [AluOpcode.Known] at hop
  | min | max | add | shr =>
      simp_all [AluInsn.fields, DepFlags.fields, flagField, readAlu, readAluOpcode, AluOpcode.code]

lemma readUop_packFields {u : Uop} (hfits : ∀ f ∈ u.fields, f.Fits) :
    readUop (packFields u.fields) = u := by
  have hread := readFields_packFields hfits
  simp only [Uop.fields, List.map_cons, List.map_nil, readFields, List.cons.injEq, and_true] at hread
  obtain ⟨hdst, hsrc, hwgt⟩ := hread
  exact Uop.ext hdst hsrc hwgt

/-- **An instruction whose fields fit is read back.** -/
theorem decodeInsn_packFields {i : Insn} (hplain : i.Plain) (hfits : ∀ f ∈ i.fields, f.Fits) :
    decodeInsn (packFields i.fields) = some i := by
  unfold decodeInsn
  cases i with
  | mem m =>
      have hop : packFields (Insn.mem m).fields % 2 ^ 3 = m.opcode.code :=
        packFields_mod (hfits _ List.mem_cons_self) _
      have hread : readFields memWidths (packFields (Insn.mem m).fields) = m.fields.map Field.value :=
        readFields_packFields hfits
      rw [hop, hread, readMem_fields hplain]
      cases m.opcode <;> rfl
  | gem g =>
      have hop : packFields (Insn.gem g).fields % 2 ^ 3 = g.opcode.code :=
        packFields_mod (hfits _ List.mem_cons_self) _
      have hread : readFields gemWidths (packFields (Insn.gem g).fields) = g.fields.map Field.value :=
        readFields_packFields hfits
      rw [hop, hread, readGem_fields]
      cases g.opcode <;> rfl
  | alu a =>
      have hop : packFields (Insn.alu a).fields % 2 ^ 3 = 4 :=
        packFields_mod (hfits _ List.mem_cons_self) _
      have hread : readFields aluWidths (packFields (Insn.alu a).fields) = a.fields.map Field.value :=
        readFields_packFields hfits
      rw [hop, hread]
      exact readAlu_fields hplain

/-- Every instruction has 128 bits. -/
lemma sum_widths (i : Insn) : (i.fields.map Field.width).sum = 128 := by
  cases i with
  | mem m => exact (by decide : memWidths.sum = 128)
  | gem g => exact (by decide : gemWidths.sum = 128)
  | alu a => exact (by decide : aluWidths.sum = 128)

/-- The layout of the words in `vivado_hls.log`. -/
def logFormat : InsnFormat where
  insnWord i := packFields i.fields
  readInsn := decodeInsn
  InsnFits i := i.Plain ∧ ∀ f ∈ i.fields, f.Fits
  uopWord u := packFields u.fields
  readUop := readUop
  UopFits u := ∀ f ∈ u.fields, f.Fits
  readInsn_insnWord _ h := decodeInsn_packFields h.1 h.2
  readUop_uopWord _ h := readUop_packFields h
  insnWord_lt i h := (packFields_lt h.2).trans_eq (by rw [sum_widths])
  uopWord_lt _ h := packFields_lt h

/-- Words of the log: a load of biases, a minimum with an immediate, the last instruction of a run and
a micro-op. -/
example : logFormat.insnWord (.mem (get1DLoadStoreInsn .load .acc 0 0 8 ⟨false, false, false, false⟩))
      = 0x00000008000800010000000000000180 ∧
    logFormat.insnWord (.alu (getALUInsn .min 8 true 13060 true ⟨false, false, false, true⟩))
      = 0x19824002000008000010000800200044 ∧
    logFormat.insnWord (.gem (getFinishInsn false true)) = 0x13 ∧
    logFormat.uopWord ⟨2, 10, 241⟩ = 0x3c405002 := by
  decide

end ThreeLaSim
