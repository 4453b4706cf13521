import ThreeLaSim.Core.Footprint
import ThreeLaSim.Vta.BufferBounds
import ThreeLaSim.Vta.UninterpretedFunc

/-!
# The machine the tests run on

The tests hand their instructions to `vta`, the hardware or its simulation, which is not part of the
repository.  `Machine` says what the tests rely on: a transfer moves blocks between an operand
buffer in DRAM and on-chip slots, a GEMM or ALU instruction applies the functions of
`uninterpreted_func.cc` along its micro-ops, and nothing else changes.  Nothing is said about
instructions that leave the on-chip memories.

* `Machine` — those laws; `flatMachine` has them.
* `Insn.reads`, `Insn.writes` — the cells an instruction touches, for given micro-ops.
* `Machine.respects_mem`, `Machine.respects_gemm` — instructions keep to them.
-/

namespace ThreeLaSim

open TokenNet LoopNest

/-! ## Memories -/

/-- What one entry of a memory holds: a micro-op, or a block of elements by row and column. -/
abbrev MemId.Cell (cfg : VtaConfig) : MemId → Type
  | .uop => Uop
  | .wgt => Fin cfg.vtaBlockOut → Fin cfg.vtaBlockIn → BitVec 8
  | .inp => Fin cfg.vtaBatch → Fin cfg.vtaBlockIn → BitVec 8
  | .acc => Fin cfg.vtaBatch → Fin cfg.vtaBlockOut → BitVec 32
  | .out => Fin cfg.vtaBatch → Fin cfg.vtaBlockOut → BitVec 8

/-- An entry of the operand buffer of a memory in DRAM, or a slot on chip. -/
inductive Loc
  | dram (mem : MemId) (block : ℕ)
  | sram (mem : MemId) (slot : ℕ)
  deriving DecidableEq, Repr

/-- The memory a location belongs to. -/
abbrev Loc.mem : Loc → MemId
  | .dram mem _ => mem
  | .sram mem _ => mem

/-- The contents of all memories. -/
abbrev Memory (cfg : VtaConfig) := (l : Loc) → l.mem.Cell cfg

/-- The micro-op memory as the list a GEMM or ALU instruction indexes. -/
def Memory.uops {cfg : VtaConfig} (σ : Memory cfg) : List Uop :=
  (List.range cfg.uopBuffDepth).map fun n => σ (.sram .uop n)

/-- The (destination, source) pairs of an ALU instruction. -/
def Memory.aluUops {cfg : VtaConfig} (σ : Memory cfg) : List (ℕ × ℕ) :=
  σ.uops.map fun u => (u.dstIdx, u.srcIdx)

/-- What `vta` is called with: the buffers in DRAM, and nothing on chip yet. -/
def Memory.called (cfg : VtaConfig) (uopBuf : List Uop) (inputBuf : ℕ → MemId.Cell cfg .inp)
    (weightBuf : ℕ → MemId.Cell cfg .wgt) (biasBuf : ℕ → MemId.Cell cfg .acc) : Memory cfg
  | .dram .uop n => uopBuf.getD n ⟨0, 0, 0⟩
  | .dram .inp b => inputBuf b
  | .dram .wgt b => weightBuf b
  | .dram .acc b => biasBuf b
  | .sram .uop _ => ⟨0, 0, 0⟩
  | .sram .inp _ | .sram .wgt _ | .sram .acc _ | .sram .out _ | .dram .out _ => fun _ _ => 0

lemma Memory.called_uop {cfg : VtaConfig} {uopBuf : List Uop} {inputBuf : ℕ → MemId.Cell cfg .inp}
    {weightBuf : ℕ → MemId.Cell cfg .wgt} {biasBuf : ℕ → MemId.Cell cfg .acc} {n : ℕ}
    (h : n < uopBuf.length) :
    Memory.called cfg uopBuf inputBuf weightBuf biasBuf (.dram .uop n) = uopBuf[n] :=
  List.getD_eq_getElem _ _ h

/-! ## The laws -/

/-- A transfer without padding whose rows do not overlap. -/
structure MemInsn.Plain (m : MemInsn) : Prop where
  yPad0 : m.yPad0 = 0
  yPad1 : m.yPad1 = 0
  xPad0 : m.xPad0 = 0
  xPad1 : m.xPad1 = 0
  xSize_le : m.xSize ≤ m.xStride

/-- The slots of a transfer exist. -/
def MemInsn.OnChip (cfg : VtaConfig) (m : MemInsn) : Prop :=
  ∀ mv ∈ m.moves, mv.1 < cfg.depth m.memoryType

/-- The micro-ops of a GEMM, and the slots they name, exist. -/
structure GemInsn.OnChip (cfg : VtaConfig) (g : GemInsn) (uops : List Uop) : Prop where
  uopEnd_le : g.uopEnd ≤ cfg.uopBuffDepth
  slots_lt : ∀ u ∈ g.expand uops,
    u.dstIdx < cfg.accBuffDepth ∧ u.srcIdx < cfg.inpBuffDepth ∧ u.wgtIdx < cfg.wgtBuffDepth

/-- The micro-ops of an ALU instruction, and the slots they name, exist. -/
structure AluInsn.OnChip (cfg : VtaConfig) (a : AluInsn) (uops : List (ℕ × ℕ)) : Prop where
  uopEnd_le : a.uopEnd ≤ cfg.uopBuffDepth
  slots_lt : ∀ u ∈ a.expand uops,
    u.1 < cfg.accBuffDepth ∧ (a.useImm = false → u.2 < cfg.accBuffDepth)

/-- The (weight, input) pairs a triple contributes to row `r` and column `c` of its accumulator. -/
def macPairs {cfg : VtaConfig} (σ : Memory cfg) (u : Uop) (r : Fin cfg.vtaBatch)
    (c : Fin cfg.vtaBlockOut) : List (BitVec 8 × BitVec 8) :=
  (List.finRange cfg.vtaBlockIn).map fun k => (σ (.sram .wgt u.wgtIdx) c k, σ (.sram .inp u.srcIdx) r k)

/-- The accumulator in slot `d` after the triples `us`: `GemmMac` over a block, `AccumAddSum` over
the triples that name the slot. -/
def gemmAcc {cfg : VtaConfig} (σ : Memory cfg) (us : List Uop) (d : ℕ) : MemId.Cell cfg .acc :=
  fun r c => accumulate (σ (.sram .acc d) r c)
    ((us.filter fun u => u.dstIdx = d).map fun u => macPairs σ u r c)

/-- One turn of an ALU instruction on the accumulator memory. -/
def aluTurn {cfg : VtaConfig} (a : AluInsn) (f : BitVec 32 → BitVec 32 → BitVec 32)
    (acc : ℕ → MemId.Cell cfg .acc) (u : ℕ × ℕ) : ℕ → MemId.Cell cfg .acc :=
  Function.update acc u.1 fun r c =>
    f (acc u.1 r c) (if a.useImm then imm2Acc (.ofInt 16 a.imm) else acc u.2 r c)

/-- The accumulator memory after an ALU instruction. -/
def aluAcc {cfg : VtaConfig} (a : AluInsn) (f : BitVec 32 → BitVec 32 → BitVec 32)
    (σ : Memory cfg) (us : List (ℕ × ℕ)) : ℕ → MemId.Cell cfg .acc :=
  us.foldl (aluTurn a f) fun d => σ (.sram .acc d)

/-- **What the tests rely on.**  The laws speak of instructions that stay on chip. -/
structure Machine (cfg : VtaConfig) where
  exec : Insn → Memory cfg → Memory cfg
  load_slot : ∀ (m : MemInsn) (σ : Memory cfg), m.opcode = .load → m.Plain → m.OnChip cfg →
    ∀ mv ∈ m.moves, exec (.mem m) σ (.sram m.memoryType mv.1) = σ (.dram m.memoryType mv.2)
  load_frame : ∀ (m : MemInsn) (σ : Memory cfg), m.opcode = .load → m.Plain → m.OnChip cfg →
    ∀ l, (∀ mv ∈ m.moves, l ≠ .sram m.memoryType mv.1) → exec (.mem m) σ l = σ l
  store_block : ∀ (m : MemInsn) (σ : Memory cfg), m.opcode = .store → m.Plain → m.OnChip cfg →
    ∀ mv ∈ m.moves, exec (.mem m) σ (.dram m.memoryType mv.2) = σ (.sram m.memoryType mv.1)
  store_frame : ∀ (m : MemInsn) (σ : Memory cfg), m.opcode = .store → m.Plain → m.OnChip cfg →
    ∀ l, (∀ mv ∈ m.moves, l ≠ .dram m.memoryType mv.2) → exec (.mem m) σ l = σ l
  gemm_acc : ∀ (g : GemInsn) (σ : Memory cfg), g.opcode = .gemm → g.resetReg = false →
    g.OnChip cfg σ.uops → ∀ d,
      exec (.gem g) σ (.sram .acc d) = gemmAcc σ (g.expand σ.uops) d
  gemm_out : ∀ (g : GemInsn) (σ : Memory cfg), g.opcode = .gemm → g.resetReg = false →
    g.OnChip cfg σ.uops → ∀ d, exec (.gem g) σ (.sram .out d)
      = if ∃ u ∈ g.expand σ.uops, u.dstIdx = d then
          fun r c => accum2Out (gemmAcc σ (g.expand σ.uops) d r c)
        else σ (.sram .out d)
  gemm_frame : ∀ (g : GemInsn) (σ : Memory cfg), g.opcode = .gemm → g.resetReg = false →
    g.OnChip cfg σ.uops → ∀ l, (∀ d, l ≠ .sram .acc d) → (∀ d, l ≠ .sram .out d) →
      exec (.gem g) σ l = σ l
  alu_acc : ∀ (a : AluInsn) (f : BitVec 32 → BitVec 32 → BitVec 32) (σ : Memory cfg),
    aluFunction a.aluOpcode = some f → a.resetReg = false → a.OnChip cfg σ.aluUops → ∀ d,
      exec (.alu a) σ (.sram .acc d) = aluAcc a f σ (a.expand σ.aluUops) d
  alu_out : ∀ (a : AluInsn) (f : BitVec 32 → BitVec 32 → BitVec 32) (σ : Memory cfg),
    aluFunction a.aluOpcode = some f → a.resetReg = false → a.OnChip cfg σ.aluUops → ∀ d,
      exec (.alu a) σ (.sram .out d)
        = if ∃ u ∈ a.expand σ.aluUops, u.1 = d then
            fun r c => acc2Out (aluAcc a f σ (a.expand σ.aluUops) d r c)
          else σ (.sram .out d)
  alu_frame : ∀ (a : AluInsn) (f : BitVec 32 → BitVec 32 → BitVec 32) (σ : Memory cfg),
    aluFunction a.aluOpcode = some f → a.resetReg = false → a.OnChip cfg σ.aluUops → ∀ l,
      (∀ d, l ≠ .sram .acc d) → (∀ d, l ≠ .sram .out d) → exec (.alu a) σ l = σ l
  finish : ∀ (g : GemInsn) (σ : Memory cfg), g.opcode = .finish → exec (.gem g) σ = σ

/-! ## A machine with the laws -/

namespace MemInsn

variable {m : MemInsn}

/-- A transfer does not fill a slot twice. -/
lemma eq_of_slot_eq {mv mv' : ℕ × ℕ} (h : mv ∈ m.moves) (h' : mv' ∈ m.moves)
    (hslot : mv.1 = mv'.1) : mv = mv' := by
  rw [moves_eq] at h h'
  obtain ⟨n, -, rfl⟩ := List.mem_map.mp h
  obtain ⟨n', -, rfl⟩ := List.mem_map.mp h'
  obtain rfl : n = n' := Nat.add_left_cancel hslot
  rfl

/-- A transfer whose rows do not overlap does not visit a DRAM block twice. -/
lemma eq_of_block_eq (hrow : m.xSize ≤ m.xStride) {mv mv' : ℕ × ℕ} (h : mv ∈ m.moves)
    (h' : mv' ∈ m.moves) (hblock : mv.2 = mv'.2) : mv = mv' := by
  simp only [moves, List.mem_flatMap, List.mem_map, List.mem_range] at h h'
  obtain ⟨y, -, x, hx, rfl⟩ := h
  obtain ⟨y', -, x', hx', rfl⟩ := h'
  obtain ⟨hdiv, hmod⟩ := mul_add_div_mod (a := y) (hx.trans_le hrow)
  obtain ⟨hdiv', hmod'⟩ := mul_add_div_mod (a := y') (hx'.trans_le hrow)
  have heq : y * m.xStride + x = y' * m.xStride + x' := by
    have : m.dramBase + y * m.xStride + x = m.dramBase + y' * m.xStride + x' := hblock
    omega
  rw [heq] at hdiv hmod
  rw [← hdiv, ← hmod, hdiv', hmod']

/-- Finding the move for a target that has only one. -/
lemma find_moves {p : ℕ × ℕ → Bool} {mv : ℕ × ℕ} (h : mv ∈ m.moves) (hp : p mv = true)
    (honly : ∀ mv' ∈ m.moves, p mv' = true → mv' = mv) : m.moves.find? p = some mv := by
  cases hfind : m.moves.find? p with
  | none => exact absurd hp (List.find?_eq_none.mp hfind mv h)
  | some mv' => rw [honly mv' (List.mem_of_find?_eq_some hfind) (List.find?_some hfind)]

end MemInsn

/-- A machine that does one instruction at a time on memories without bounds. -/
def flatExec (cfg : VtaConfig) : Insn → Memory cfg → Memory cfg
  | .mem m, σ => fun
      | .sram mem a =>
          if m.opcode = .load ∧ mem = m.memoryType then
            (m.moves.find? fun mv => mv.1 = a).elim (σ (.sram mem a)) fun mv => σ (.dram mem mv.2)
          else σ (.sram mem a)
      | .dram mem b =>
          if m.opcode = .store ∧ mem = m.memoryType then
            (m.moves.find? fun mv => mv.2 = b).elim (σ (.dram mem b)) fun mv => σ (.sram mem mv.1)
          else σ (.dram mem b)
  | .gem g, σ =>
      match g.opcode with
      | .finish => σ
      | .gemm => fun
          | .sram .acc d => gemmAcc σ (g.expand σ.uops) d
          | .sram .out d =>
              if ∃ u ∈ g.expand σ.uops, u.dstIdx = d then
                fun r c => accum2Out (gemmAcc σ (g.expand σ.uops) d r c)
              else σ (.sram .out d)
          | l => σ l
  | .alu a, σ =>
      match aluFunction a.aluOpcode with
      | none => σ
      | some f => fun
          | .sram .acc d => aluAcc a f σ (a.expand σ.aluUops) d
          | .sram .out d =>
              if ∃ u ∈ a.expand σ.aluUops, u.1 = d then
                fun r c => acc2Out (aluAcc a f σ (a.expand σ.aluUops) d r c)
              else σ (.sram .out d)
          | l => σ l

section FlatExec

variable {cfg : VtaConfig} (σ : Memory cfg)

lemma flatExec_load_slot (m : MemInsn) (hop : m.opcode = .load) {mv : ℕ × ℕ} (hmv : mv ∈ m.moves) :
    flatExec cfg (.mem m) σ (.sram m.memoryType mv.1) = σ (.dram m.memoryType mv.2) := by
  have hfind := MemInsn.find_moves (p := fun mv' => mv'.1 = mv.1) hmv (by simp)
    fun mv' hmv' heq => MemInsn.eq_of_slot_eq hmv' hmv (of_decide_eq_true heq)
  simp [flatExec, hop, hfind]

lemma flatExec_load_frame (m : MemInsn) (hop : m.opcode = .load) {l : Loc}
    (hl : ∀ mv ∈ m.moves, l ≠ .sram m.memoryType mv.1) : flatExec cfg (.mem m) σ l = σ l := by
  match l with
  | .dram mem b => simp [flatExec, hop]
  | .sram mem a =>
      by_cases hmem : mem = m.memoryType
      · subst hmem
        have hfind : m.moves.find? (fun mv => mv.1 = a) = none := by
          refine List.find?_eq_none.mpr fun mv hmv heq => hl mv hmv ?_
          rw [of_decide_eq_true heq]
        simp [flatExec, hop, hfind]
      · simp [flatExec, hmem]

lemma flatExec_store_block (m : MemInsn) (hop : m.opcode = .store) (hp : m.Plain) {mv : ℕ × ℕ}
    (hmv : mv ∈ m.moves) :
    flatExec cfg (.mem m) σ (.dram m.memoryType mv.2) = σ (.sram m.memoryType mv.1) := by
  have hfind := MemInsn.find_moves (p := fun mv' => mv'.2 = mv.2) hmv (by simp)
    fun mv' hmv' heq => MemInsn.eq_of_block_eq hp.xSize_le hmv' hmv (of_decide_eq_true heq)
  simp [flatExec, hop, hfind]

lemma flatExec_store_frame (m : MemInsn) (hop : m.opcode = .store) {l : Loc}
    (hl : ∀ mv ∈ m.moves, l ≠ .dram m.memoryType mv.2) : flatExec cfg (.mem m) σ l = σ l := by
  match l with
  | .sram mem a => simp [flatExec, hop]
  | .dram mem b =>
      by_cases hmem : mem = m.memoryType
      · subst hmem
        have hfind : m.moves.find? (fun mv => mv.2 = b) = none := by
          refine List.find?_eq_none.mpr fun mv hmv heq => hl mv hmv ?_
          rw [of_decide_eq_true heq]
        simp [flatExec, hop, hfind]
      · simp [flatExec, hmem]

lemma flatExec_gemm_acc (g : GemInsn) (hop : g.opcode = .gemm) (d : ℕ) :
    flatExec cfg (.gem g) σ (.sram .acc d) = gemmAcc σ (g.expand σ.uops) d := by
  simp [flatExec, hop]

lemma flatExec_gemm_out (g : GemInsn) (hop : g.opcode = .gemm) (d : ℕ) :
    flatExec cfg (.gem g) σ (.sram .out d) = if ∃ u ∈ g.expand σ.uops, u.dstIdx = d then
      fun r c => accum2Out (gemmAcc σ (g.expand σ.uops) d r c) else σ (.sram .out d) := by
  simp [flatExec, hop]

lemma flatExec_gemm_frame (g : GemInsn) (hop : g.opcode = .gemm) {l : Loc}
    (hacc : ∀ d, l ≠ .sram .acc d) (hout : ∀ d, l ≠ .sram .out d) :
    flatExec cfg (.gem g) σ l = σ l := by
  match l with
  | .sram .acc d => exact absurd rfl (hacc d)
  | .sram .out d => exact absurd rfl (hout d)
  | .sram .uop _ | .sram .wgt _ | .sram .inp _ | .dram _ _ => simp [flatExec, hop]

section Alu

variable {a : AluInsn} {f : BitVec 32 → BitVec 32 → BitVec 32}
  (hf : aluFunction a.aluOpcode = some f)
include hf

lemma flatExec_alu_acc (d : ℕ) :
    flatExec cfg (.alu a) σ (.sram .acc d) = aluAcc a f σ (a.expand σ.aluUops) d := by
  simp [flatExec, hf]

lemma flatExec_alu_out (d : ℕ) :
    flatExec cfg (.alu a) σ (.sram .out d) = if ∃ u ∈ a.expand σ.aluUops, u.1 = d then
      fun r c => acc2Out (aluAcc a f σ (a.expand σ.aluUops) d r c) else σ (.sram .out d) := by
  simp [flatExec, hf]

lemma flatExec_alu_frame {l : Loc} (hacc : ∀ d, l ≠ .sram .acc d) (hout : ∀ d, l ≠ .sram .out d) :
    flatExec cfg (.alu a) σ l = σ l := by
  match l with
  | .sram .acc d => exact absurd rfl (hacc d)
  | .sram .out d => exact absurd rfl (hout d)
  | .sram .uop _ | .sram .wgt _ | .sram .inp _ | .dram _ _ => simp [flatExec, hf]

end Alu

lemma flatExec_finish (g : GemInsn) (hop : g.opcode = .finish) : flatExec cfg (.gem g) σ = σ := by
  simp [flatExec, hop]

end FlatExec

/-- `flatExec` has the laws. -/
def flatMachine (cfg : VtaConfig) : Machine cfg where
  exec := flatExec cfg
  load_slot m σ hop _ _ _ hmv := flatExec_load_slot σ m hop hmv
  load_frame m σ hop _ _ _ hl := flatExec_load_frame σ m hop hl
  store_block m σ hop hp _ _ hmv := flatExec_store_block σ m hop hp hmv
  store_frame m σ hop _ _ _ hl := flatExec_store_frame σ m hop hl
  gemm_acc g σ hop _ _ d := flatExec_gemm_acc σ g hop d
  gemm_out g σ hop _ _ d := flatExec_gemm_out σ g hop d
  gemm_frame g σ hop _ _ _ hacc hout := flatExec_gemm_frame σ g hop hacc hout
  alu_acc _ _ σ hf _ _ d := flatExec_alu_acc σ hf d
  alu_out _ _ σ hf _ _ d := flatExec_alu_out σ hf d
  alu_frame _ _ σ hf _ _ _ hacc hout := flatExec_alu_frame σ hf hacc hout
  finish g σ hop := flatExec_finish σ g hop

/-! ## Footprints -/

lemma getGEMMInsn_resetReg (uopOffset batch inFeat outFeat : ℕ) (c : Bool) (dep : DepFlags) :
    (getGEMMInsn uopOffset batch inFeat outFeat c dep).resetReg = false := by
  cases c <;> rfl

/-- The cells whose contents an instruction uses, when the micro-op memory holds `uops`. -/
def Insn.reads (uops : List Uop) : Insn → Set Loc
  | .mem m =>
      match m.opcode with
      | .load => {l | ∃ mv ∈ m.moves, l = .dram m.memoryType mv.2}
      | .store => {l | ∃ mv ∈ m.moves, l = .sram m.memoryType mv.1}
  | .gem g =>
      match g.opcode with
      | .gemm => {l | (∃ d, l = .sram .acc d ∨ l = .sram .out d) ∨
          ∃ u ∈ g.expand uops, l = .sram .wgt u.wgtIdx ∨ l = .sram .inp u.srcIdx}
      | .finish => ∅
  | .alu _ => {l | ∃ d, l = .sram .acc d ∨ l = .sram .out d}

/-- The cells an instruction writes. -/
def Insn.writes : Insn → Set Loc
  | .mem m =>
      match m.opcode with
      | .load => {l | ∃ mv ∈ m.moves, l = .sram m.memoryType mv.1}
      | .store => {l | ∃ mv ∈ m.moves, l = .dram m.memoryType mv.2}
  | .gem g =>
      match g.opcode with
      | .gemm => {l | ∃ d, l = .sram .acc d ∨ l = .sram .out d}
      | .finish => ∅
  | .alu _ => {l | ∃ d, l = .sram .acc d ∨ l = .sram .out d}

/-- The micro-op memory begins with `uops`. -/
def HoldsUops {cfg : VtaConfig} (uops : List Uop) (σ : Memory cfg) : Prop :=
  ∀ n, ∀ h : n < uops.length, σ (.sram .uop n) = uops[n]

/-- A slice depends on the entries before its end. -/
lemma slice_congr {α : Type*} {l l' : List α} {bgn stop : ℕ} (h : ∀ n < stop, l[n]? = l'[n]?) :
    (l.drop bgn).take (stop - bgn) = (l'.drop bgn).take (stop - bgn) := by
  refine List.ext_getElem? fun n => ?_
  by_cases hn : n < stop - bgn
  · rw [List.getElem?_take_of_lt hn, List.getElem?_take_of_lt hn, List.getElem?_drop,
      List.getElem?_drop, h _ (by omega)]
  · rw [List.getElem?_take_eq_none (by omega), List.getElem?_take_eq_none (by omega)]

/-- A GEMM expands to the same triples from any memory that begins with its micro-ops. -/
lemma GemInsn.expand_uops {cfg : VtaConfig} {g : GemInsn} {uops : List Uop} {σ : Memory cfg}
    (hσ : HoldsUops uops σ) (hlen : uops.length ≤ cfg.uopBuffDepth) (hend : g.uopEnd ≤ uops.length) :
    g.expand σ.uops = g.expand uops := by
  have hslice : (σ.uops.drop g.uopBgn).take (g.uopEnd - g.uopBgn)
      = (uops.drop g.uopBgn).take (g.uopEnd - g.uopBgn) := by
    refine slice_congr fun n hn => ?_
    have hlt : n < uops.length := hn.trans_le hend
    rw [List.getElem?_eq_getElem hlt, Memory.uops, List.getElem?_map,
      List.getElem?_range (hlt.trans_le hlen), Option.map_some, hσ _ hlt]
  simp only [GemInsn.expand, hslice]

namespace Machine

variable {cfg : VtaConfig} (M : Machine cfg) (uops : List Uop)

/-- A transfer keeps to its footprint. -/
lemma respects_mem {m : MemInsn} (hp : m.Plain) (hc : m.OnChip cfg) :
    Footprint.Respects (fun _ => True) (M.exec (.mem m)) (Insn.reads uops (.mem m))
      (Insn.writes (.mem m)) := by
  cases hop : m.opcode with
  | load =>
      refine ⟨fun _ _ => trivial, fun σ _ l hl => ?_, fun σ τ _ _ hread l hl => ?_⟩
      · refine M.load_frame m σ hop hp hc l fun mv hmv heq => hl ?_
        simp only [Insn.writes, hop]
        exact ⟨mv, hmv, heq⟩
      · simp only [Insn.writes, hop] at hl
        obtain ⟨mv, hmv, rfl⟩ := hl
        rw [M.load_slot m σ hop hp hc mv hmv, M.load_slot m τ hop hp hc mv hmv]
        refine hread _ ?_
        simp only [Insn.reads, hop]
        exact ⟨mv, hmv, rfl⟩
  | store =>
      refine ⟨fun _ _ => trivial, fun σ _ l hl => ?_, fun σ τ _ _ hread l hl => ?_⟩
      · refine M.store_frame m σ hop hp hc l fun mv hmv heq => hl ?_
        simp only [Insn.writes, hop]
        exact ⟨mv, hmv, heq⟩
      · simp only [Insn.writes, hop] at hl
        obtain ⟨mv, hmv, rfl⟩ := hl
        rw [M.store_block m σ hop hp hc mv hmv, M.store_block m τ hop hp hc mv hmv]
        refine hread _ ?_
        simp only [Insn.reads, hop]
        exact ⟨mv, hmv, rfl⟩

variable {M uops}

/-- An instruction that does not write the micro-op memory keeps its footprint there. -/
lemma respects_holdsUops {f : Memory cfg → Memory cfg} {reads writes : Set Loc}
    (h : Footprint.Respects (fun _ => True) f reads writes) (hw : ∀ n, .sram .uop n ∉ writes) :
    Footprint.Respects (HoldsUops uops) f reads writes where
  keeps σ hσ n hn := (h.frame σ trivial _ (hw n)).trans (hσ n hn)
  frame σ _ := h.frame σ trivial
  determined σ τ _ _ := h.determined σ τ trivial trivial

/-- An accumulator depends on itself and on the blocks the triples name. -/
lemma gemmAcc_congr {σ τ : Memory cfg} {us : List Uop} {d : ℕ}
    (hacc : σ (.sram .acc d) = τ (.sram .acc d))
    (hwgt : ∀ u ∈ us, σ (.sram .wgt u.wgtIdx) = τ (.sram .wgt u.wgtIdx))
    (hinp : ∀ u ∈ us, σ (.sram .inp u.srcIdx) = τ (.sram .inp u.srcIdx)) :
    gemmAcc σ us d = gemmAcc τ us d := by
  funext r c
  rw [gemmAcc, gemmAcc, hacc]
  congr 1
  refine List.map_congr_left fun u hu => ?_
  have hu := List.mem_of_mem_filter hu
  rw [macPairs, macPairs, hwgt u hu, hinp u hu]

/-- A GEMM keeps to its footprint once its micro-ops are on chip. -/
lemma respects_gemm {g : GemInsn} (hop : g.opcode = .gemm) (hreset : g.resetReg = false)
    (hlen : uops.length ≤ cfg.uopBuffDepth) (hend : g.uopEnd ≤ uops.length)
    (hchip : g.OnChip cfg uops) :
    Footprint.Respects (HoldsUops uops) (M.exec (.gem g)) (Insn.reads uops (.gem g))
      (Insn.writes (.gem g)) := by
  have hexpand : ∀ σ : Memory cfg, HoldsUops uops σ → g.expand σ.uops = g.expand uops :=
    fun σ hσ => GemInsn.expand_uops hσ hlen hend
  have hchip' : ∀ σ : Memory cfg, HoldsUops uops σ → g.OnChip cfg σ.uops := fun σ hσ =>
    ⟨hchip.uopEnd_le, by rw [hexpand σ hσ]; exact hchip.slots_lt⟩
  have hframe : ∀ σ : Memory cfg, HoldsUops uops σ → ∀ l ∉ Insn.writes (.gem g),
      M.exec (.gem g) σ l = σ l := by
    intro σ hσ l hl
    simp only [Insn.writes, hop, Set.mem_ofPred_eq, not_exists, not_or] at hl
    exact M.gemm_frame g σ hop hreset (hchip' σ hσ) l (fun d => (hl d).1) fun d => (hl d).2
  have huop : ∀ n, Loc.sram .uop n ∉ Insn.writes (.gem g) := by
    simp [Insn.writes, hop]
  refine ⟨fun σ hσ n hn => (hframe σ hσ _ (huop n)).trans (hσ n hn), hframe, ?_⟩
  intro σ τ hσ hτ hread l hl
  simp only [Insn.reads, hop, Set.mem_ofPred_eq] at hread
  have hacc : ∀ d, gemmAcc σ (g.expand uops) d = gemmAcc τ (g.expand uops) d := fun d =>
    gemmAcc_congr (hread _ (.inl ⟨d, .inl rfl⟩)) (fun u hu => hread _ (.inr ⟨u, hu, .inl rfl⟩))
      fun u hu => hread _ (.inr ⟨u, hu, .inr rfl⟩)
  simp only [Insn.writes, hop, Set.mem_ofPred_eq] at hl
  obtain ⟨d, rfl | rfl⟩ := hl
  · rw [M.gemm_acc g σ hop hreset (hchip' σ hσ), M.gemm_acc g τ hop hreset (hchip' τ hτ),
      hexpand σ hσ, hexpand τ hτ, hacc]
  · rw [M.gemm_out g σ hop hreset (hchip' σ hσ), M.gemm_out g τ hop hreset (hchip' τ hτ),
      hexpand σ hσ, hexpand τ hτ, hacc, hread _ (.inl ⟨d, .inr rfl⟩)]

/-- A finish instruction touches nothing. -/
lemma respects_finish {g : GemInsn} (hop : g.opcode = .finish) :
    Footprint.Respects (HoldsUops uops) (M.exec (.gem g)) (Insn.reads uops (.gem g))
      (Insn.writes (.gem g)) := by
  have hid : M.exec (.gem g) = id := funext fun σ => M.finish g σ hop
  simp only [hid, Insn.reads, Insn.writes, hop]
  exact ⟨fun _ hσ => hσ, fun _ _ _ _ => rfl, fun _ _ _ _ _ l hl => absurd hl (Set.notMem_empty l)⟩

end Machine

end ThreeLaSim
