import ThreeLaSim.Vta.TestResult

/-!
# The verdict of `alu_test`

Batch block by batch block, `alu_test` loads one or two input vectors into the accumulator memory,
runs one ALU instruction in place and stores the result.

* `aluAcc_shifted` — an ALU instruction whose sources lie behind its destinations.
* `AluTest.runAll_batchBlock` — one turn of the loop.
* **`AluTest.aluTest_successful`** — the test is successful, whatever the modules do in between.
-/

namespace ThreeLaSim

open TokenNet LoopNest Footprint

/-! ## ALU instructions on the machine -/

/-- The micro-op memory begins with `uops`, as far as an ALU instruction reads them. -/
def HoldsAluUops {cfg : VtaConfig} (uops : List (ℕ × ℕ)) (σ : Memory cfg) : Prop :=
  ∀ n, ∀ h : n < uops.length, ((σ (.sram .uop n)).dstIdx, (σ (.sram .uop n)).srcIdx) = uops[n]

/-- An ALU instruction visits the same slots from any memory that begins with its micro-ops. -/
lemma AluInsn.expand_uops {cfg : VtaConfig} {a : AluInsn} {uops : List (ℕ × ℕ)} {σ : Memory cfg}
    (hσ : HoldsAluUops uops σ) (hlen : uops.length ≤ cfg.uopBuffDepth)
    (hend : a.uopEnd ≤ uops.length) : a.expand σ.aluUops = a.expand uops := by
  have hslice : (σ.aluUops.drop a.uopBgn).take (a.uopEnd - a.uopBgn)
      = (uops.drop a.uopBgn).take (a.uopEnd - a.uopBgn) := by
    refine slice_congr fun n hn => ?_
    have hlt : n < uops.length := hn.trans_le hend
    rw [List.getElem?_eq_getElem hlt, Memory.aluUops, Memory.uops, List.map_map, List.getElem?_map,
      List.getElem?_range (hlt.trans_le hlen), Option.map_some, ← hσ n hlt]
    rfl
  simp only [AluInsn.expand, hslice]

/-- **An ALU instruction on vectors of `n` blocks**, with its sources right behind its destinations:
no turn changes what a later one reads. -/
lemma aluAcc_shifted {cfg : VtaConfig} (a : AluInsn) (f : BitVec 32 → BitVec 32 → BitVec 32)
    (σ : Memory cfg) {n d : ℕ} (hd : d < n) :
    aluAcc a f σ ((List.range n).map fun i => (i, n + i)) d = fun r c =>
      f (σ (.sram .acc d) r c)
        (if a.useImm then imm2Acc (.ofInt 16 a.imm) else σ (.sram .acc (n + d)) r c) := by
  -- after `k` turns the first `k` destinations are done
  have hturns : ∀ k ≤ n, aluAcc a f σ ((List.range k).map fun i => (i, n + i)) = fun d =>
      if d < k then fun r c => f (σ (.sram .acc d) r c)
        (if a.useImm then imm2Acc (.ofInt 16 a.imm) else σ (.sram .acc (n + d)) r c)
      else σ (.sram .acc d) := by
    intro k
    induction k with
    | zero =>
        intro _
        rfl
    | succ k ih =>
        intro hk
        have hfold : aluAcc a f σ ((List.range (k + 1)).map fun i => (i, n + i))
            = aluTurn a f (aluAcc a f σ ((List.range k).map fun i => (i, n + i))) (k, n + k) := by
          rw [List.range_succ, List.map_append, aluAcc, List.foldl_append]
          rfl
        rw [hfold, ih (Nat.le_of_succ_le hk)]
        funext d
        rcases Nat.lt_trichotomy d k with hlt | rfl | hgt
        · rw [aluTurn, Function.update_of_ne hlt.ne, if_pos hlt, if_pos (Nat.lt_succ_of_lt hlt)]
        · rw [aluTurn, Function.update_self, if_neg (Nat.lt_irrefl d), if_pos (Nat.lt_succ_self d),
            if_neg (by omega)]
        · rw [aluTurn, Function.update_of_ne hgt.ne', if_neg (by omega), if_neg (by omega)]
  rw [hturns n le_rfl]
  exact if_pos hd

/-- A memory in which DRAM holds the micro-ops and the packed input vectors. -/
structure AluPrepared (cfg : VtaConfig) (p : AluTest) (inputs : ℕ → ℕ → BitVec 32) (σ : Memory cfg) :
    Prop where
  uop : ∀ n, ∀ hn : n < (getMapALUUops (p.txSize cfg) p.uopCompression).length,
    ((σ (.dram .uop n)).dstIdx, (σ (.dram .uop n)).srcIdx)
      = (getMapALUUops (p.txSize cfg) p.uopCompression)[n]
  acc : ∀ b < p.batch / cfg.vtaBatch * (p.txSize cfg * p.inputSets), σ (.dram .acc b) =
    bufferBlock 32 32 _ _ (packBuffer 32 32 (fun y x => (inputs y x).toInt) p.batch
      (p.vectorSize * p.inputSets) cfg.vtaBatch cfg.vtaBlockOut) b

/-- `vta` is called with the packed vectors in place. -/
lemma aluPrepared_called (cfg : VtaConfig) (p : AluTest) (inputs : ℕ → ℕ → BitVec 32) :
    AluPrepared cfg p inputs
      (.called cfg ((getMapALUUops (p.txSize cfg) p.uopCompression).map fun u => ⟨u.1, u.2, 0⟩)
        (fun _ _ _ => 0) (fun _ _ _ => 0)
        (bufferBlock 32 32 _ _ (packBuffer 32 32 (fun y x => (inputs y x).toInt) p.batch
          (p.vectorSize * p.inputSets) cfg.vtaBatch cfg.vtaBlockOut))) where
  uop n hn := by
    rw [Memory.called_uop (by rwa [List.length_map]), List.getElem_map]
  acc _ _ := rfl

namespace AluTest

variable {cfg : VtaConfig} {p : AluTest} {inputs : ℕ → ℕ → BitVec 32}

lemma inputSets_pos (p : AluTest) : 0 < p.inputSets := by
  rw [inputSets]
  split_ifs <;> decide

/-- The operands the reference computation is meant for: an opcode the ALU has, immediates that fit
their field, shift counts that fit theirs. -/
structure Operands (cfg : VtaConfig) (p : AluTest) (inputs : ℕ → ℕ → BitVec 32) : Prop where
  opcode : ∀ c, p.opcode ≠ .other c
  immediate : p.useImm = true → ∀ b < p.batch / cfg.vtaBatch,
    -2 ^ 15 ≤ p.immediate b ∧ p.immediate b < 2 ^ 15
  shr : p.opcode = .shr → ∀ i < p.batch, ∀ j < p.vectorSize,
    -16 ≤ (p.operand cfg inputs i j).toInt ∧ (p.operand cfg inputs i j).toInt ≤ 15

lemma getALUInsn_aluOpcode (opcode : AluOpcode) (n : ℕ) (useImm : Bool) (imm : ℤ) (c : Bool)
    (dep : DepFlags) : (getALUInsn opcode n useImm imm c dep).aluOpcode = opcode ∧
      (getALUInsn opcode n useImm imm c dep).useImm = useImm ∧
      (getALUInsn opcode n useImm imm c dep).imm = imm ∧
      (getALUInsn opcode n useImm imm c dep).resetReg = false := by
  cases c <;> exact ⟨rfl, rfl, rfl, rfl⟩

/-- The byte of an output entry, from the operands the ALU instruction gets. -/
lemma acc2Out_operand (h : p.Asserts cfg) (hop : p.Operands cfg inputs)
    {f : BitVec 32 → BitVec 32 → BitVec 32} (hf : aluFunction p.opcode = some f) {i j : ℕ}
    (hi : i < p.batch) (hj : j < p.vectorSize) :
    acc2Out (f (inputs i j) (p.operand cfg inputs i j)) = p.outputsRef cfg inputs i j := by
  have hib : i / cfg.vtaBatch < p.batch / cfg.vtaBatch :=
    Nat.div_lt_div_of_lt_of_dvd (Nat.dvd_of_mod_eq_zero h.batch_mod) hi
  have hagree := aluFunction_eq hf (x := inputs i j) (y := p.operand cfg inputs i j)
    (fun h => hop.shr h i hi j hj) p.useImm
  rw [acc2Out_eq, outputsRef]
  cases huse : p.useImm with
  | false =>
      have heq := hagree (p.immVal cfg i)
      simp only [huse, operand, Bool.false_eq_true, if_false] at heq
      rw [operand, huse, if_neg Bool.false_ne_true, heq]
  | true =>
      obtain ⟨hlo, hhi⟩ := hop.immediate huse _ hib
      have heq := hagree (inputs i (j + p.vectorSize))
      simp only [huse, operand, if_true, imm2Acc_ofInt hlo hhi] at heq
      rw [operand, huse, if_pos rfl, imm2Acc_ofInt hlo hhi, heq, immVal]

/-- The operands are in place, and the batch blocks before `b` are in DRAM. -/
structure Settled (cfg : VtaConfig) (p : AluTest) (inputs : ℕ → ℕ → BitVec 32) (b : ℕ)
    (σ : Memory cfg) : Prop where
  uops : HoldsAluUops (getMapALUUops (p.txSize cfg) p.uopCompression) σ
  prepared : AluPrepared cfg p inputs σ
  out : ∀ k < b, ∀ x < p.txSize cfg, σ (.dram .out (k * p.txSize cfg + x))
    = matrixBlock _ _ (p.outputsRef cfg inputs) k x

variable (h : p.Asserts cfg)
include h

omit h in
lemma length_uops : (getMapALUUops (p.txSize cfg) p.uopCompression).length = p.uopSize cfg := by
  rw [getMapALUUops, uopSize]
  cases p.uopCompression <;> simp [txSize]

/-- The vectors of a row, in blocks. -/
lemma width_eq : cfg.vtaBlockOut ∣ p.vectorSize * p.inputSets ∧
    p.vectorSize * p.inputSets / cfg.vtaBlockOut = p.txSize cfg * p.inputSets := by
  have hdvd := Nat.dvd_of_mod_eq_zero h.vectorSize_mod
  refine ⟨hdvd.mul_right _, ?_⟩
  rw [txSize, Nat.mul_comm, Nat.mul_div_assoc _ hdvd, Nat.mul_comm]

/-- The slots of an ALU instruction exist. -/
lemma alu_onChip (b : ℕ) :
    (p.aluInsn cfg b).OnChip cfg (getMapALUUops (p.txSize cfg) p.uopCompression) where
  uopEnd_le := by
    have hle := h.uopSize_le
    rw [uopSize] at hle
    rw [aluInsn, getALUInsn]
    cases hc : p.uopCompression <;> simp_all [txSize]
  slots_lt u hu := by
    rw [aluInsn, expand_getALUInsn] at hu
    obtain ⟨i, hi, rfl⟩ := List.mem_map.mp hu
    have hi := List.mem_range.mp hi
    have hle := h.txSize_le
    refine ⟨?_, fun huse => ?_⟩
    · refine (hi.trans_le ?_).trans_le hle
      exact Nat.le_mul_of_pos_right _ p.inputSets_pos
    · rw [aluInsn, (getALUInsn_aluOpcode ..).2.1] at huse
      rw [inputSets, huse] at hle
      have htwo : p.txSize cfg * 2 ≤ cfg.accBuffDepth := hle
      show p.txSize cfg + i < cfg.accBuffDepth
      omega

/-- The blocks of the input vectors. -/
lemma acc_block (hpack : PackConfig cfg) {σ : Memory cfg} (hσ : AluPrepared cfg p inputs σ) {i j : ℕ}
    (hi : i < p.batch / cfg.vtaBatch) (hj : j < p.txSize cfg * p.inputSets) :
    σ (.dram .acc (i * (p.txSize cfg * p.inputSets) + j)) = matrixBlock _ _ inputs i j := by
  obtain ⟨hdvd, hwidth⟩ := width_eq h
  rw [hσ.acc _ (mul_add_lt hi hj), ← hwidth]
  exact hpack.acc.bufferBlock_packBuffer cfg.vtaBatch_pos cfg.vtaBlockOut_pos inputs
    (Nat.dvd_of_mod_eq_zero h.batch_mod) hdvd hi (hwidth ▸ hj)

/-- The ALU instruction of a batch block leaves the bytes of the reference in the output slots. -/
lemma exec_alu_out (hop : p.Operands cfg inputs) (M : Machine cfg) {b : ℕ}
    (hb : b < p.batch / cfg.vtaBatch) {σ : Memory cfg}
    (huops : HoldsAluUops (getMapALUUops (p.txSize cfg) p.uopCompression) σ)
    (hacc : ∀ x < p.txSize cfg * p.inputSets, σ (.sram .acc x) = matrixBlock _ _ inputs b x) :
    (∀ x < p.txSize cfg, M.exec (.alu (p.aluInsn cfg (b * cfg.vtaBatch))) σ (.sram .out x)
      = matrixBlock _ _ (p.outputsRef cfg inputs) b x) ∧
    ∀ l, (∀ d, l ≠ .sram .acc d) → (∀ d, l ≠ .sram .out d) →
      M.exec (.alu (p.aluInsn cfg (b * cfg.vtaBatch))) σ l = σ l := by
  set a := p.aluInsn cfg (b * cfg.vtaBatch) with ha
  obtain ⟨hopcode, huse, himm, hreset⟩ := getALUInsn_aluOpcode p.opcode (p.txSize cfg) p.useImm
    (p.immediate (b * cfg.vtaBatch / cfg.vtaBatch)) p.uopCompression ⟨false, false, false, true⟩
  obtain ⟨f, hf⟩ : ∃ f, aluFunction p.opcode = some f := by
    cases hc : p.opcode with
    | min | max | add | shr => exact ⟨_, rfl⟩
    | other c => exact absurd hc (hop.opcode c)
  have hfa : aluFunction a.aluOpcode = some f := (congrArg aluFunction hopcode).trans hf
  have hchip := alu_onChip h (b * cfg.vtaBatch)
  have hend : a.uopEnd ≤ (getMapALUUops (p.txSize cfg) p.uopCompression).length := by
    rw [ha, aluInsn, getALUInsn, getMapALUUops]
    cases p.uopCompression <;> simp
  have hexpand : a.expand σ.aluUops = a.expand (getMapALUUops (p.txSize cfg) p.uopCompression) :=
    AluInsn.expand_uops huops (length_uops.trans_le h.uopSize_le) hend
  have hchip' : a.OnChip cfg σ.aluUops := ⟨hchip.uopEnd_le, by rw [hexpand]; exact hchip.slots_lt⟩
  refine ⟨fun x hx => ?_, M.alu_frame a f σ hfa hreset hchip'⟩
  have hslots : a.expand σ.aluUops = (List.range (p.txSize cfg)).map fun i => (i, p.txSize cfg + i) :=
    hexpand.trans (expand_getALUInsn ..)
  have hout := M.alu_out a f σ hfa hreset hchip' x
  rw [hslots, if_pos ⟨_, List.mem_map_of_mem (List.mem_range.mpr hx), rfl⟩] at hout
  refine hout.trans ?_
  funext r c
  have hdvd := Nat.dvd_of_mod_eq_zero h.vectorSize_mod
  have hi : b * cfg.vtaBatch + r < p.batch := by
    rw [← Nat.div_mul_cancel (Nat.dvd_of_mod_eq_zero h.batch_mod)]
    exact mul_add_lt hb r.isLt
  have hj : x * cfg.vtaBlockOut + c < p.vectorSize := by
    rw [← Nat.div_mul_cancel hdvd]
    exact mul_add_lt hx c.isLt
  obtain ⟨hdiv, -⟩ := mul_add_div_mod (a := b) r.isLt
  have hfirst : x < p.txSize cfg * p.inputSets :=
    hx.trans_le (Nat.le_mul_of_pos_right _ p.inputSets_pos)
  have hoperand : (if a.useImm then imm2Acc (.ofInt 16 a.imm)
      else (σ (.sram .acc (p.txSize cfg + x)) : MemId.Cell cfg .acc) r c)
        = p.operand cfg inputs (b * cfg.vtaBatch + r) (x * cfg.vtaBlockOut + c) := by
    have huse' : a.useImm = p.useImm := huse
    have himm' : a.imm = p.immediate b := himm.trans (by rw [Nat.mul_div_cancel _ cfg.vtaBatch_pos])
    rw [operand, hdiv, huse', himm']
    split_ifs with hcase
    · rfl
    · have htwo : p.inputSets = 2 := if_neg hcase
      rw [hacc _ (by rw [htwo]; omega), matrixBlock, Nat.add_mul, txSize, Nat.div_mul_cancel hdvd]
      congr 1
      omega
  rw [aluAcc_shifted a f σ hx]
  refine (congrArg acc2Out (congrArg₂ f (congrFun₂ (hacc x hfirst) r c) hoperand)).trans ?_
  exact acc2Out_operand h hop hf hi hj

/-- The output is whole blocks, and the output buffer has room for it. -/
lemma outputBuf_fits (hpack : PackConfig cfg) :
    cfg.vtaBatch ∣ p.batch ∧ cfg.vtaBlockOut ∣ p.vectorSize ∧
      4 ∣ (VtaTest.alu p).outputBufSize cfg ∧
      p.batch / cfg.vtaBatch * (p.vectorSize / cfg.vtaBlockOut) * cfg.outElemBytes
        ≤ (VtaTest.alu p).outputBufSize cfg := by
  refine ⟨Nat.dvd_of_mod_eq_zero h.batch_mod, Nat.dvd_of_mod_eq_zero h.vectorSize_mod,
    ((hpack.out.ratio_dvd.mul_right _).mul_right _).mul_right _, ?_⟩
  calc p.batch / cfg.vtaBatch * p.txSize cfg * cfg.outElemBytes
      ≤ p.batch * p.txSize cfg * cfg.outElemBytes :=
        Nat.mul_le_mul_right _ (Nat.mul_le_mul_right _ (Nat.div_le_self _ _))
    _ = cfg.outElemBytes * p.batch * p.txSize cfg * 1 := by ring
    _ ≤ cfg.outElemBytes * p.batch * p.txSize cfg * p.inputSets :=
        Nat.mul_le_mul_left _ p.inputSets_pos

section Turn

variable (hpack : PackConfig cfg) (hop : p.Operands cfg inputs) (M : Machine cfg)
include hpack hop

/-- **One turn of the loop**: a batch block is loaded, computed in place and stored. -/
lemma runAll_batchBlock {b : ℕ} (hb : b < p.batch / cfg.vtaBatch) {σ : Memory cfg}
    (hset : p.Settled cfg inputs b σ) :
    p.Settled cfg inputs (b + 1) (runAll M.exec (p.batchBlock cfg b) σ) := by
  have hbase : b * cfg.vtaBatch / cfg.vtaBatch = b := Nat.mul_div_cancel _ cfg.vtaBatch_pos
  have hsets : p.txSize cfg ≤ p.txSize cfg * p.inputSets :=
    Nat.le_mul_of_pos_right _ p.inputSets_pos
  have hstoreDepth : p.txSize cfg ≤ cfg.depth .out := hsets.trans h.txSize_le
  -- the transfers are rows
  set load := get1DLoadStoreInsn .load .acc 0 (b * (p.txSize cfg * p.inputSets))
    (p.txSize cfg * p.inputSets) ⟨false, decide (b * cfg.vtaBatch > 0), false, false⟩ with hload
  set store := get1DLoadStoreInsn .store .out 0 (b * p.txSize cfg) (p.txSize cfg)
    ⟨true, false, true, false⟩ with hstore
  have hblock : p.batchBlock cfg b
      = [.mem load, .alu (p.aluInsn cfg (b * cfg.vtaBatch)), .mem store] := by
    rw [batchBlock, loadInsn, storeInsn, hbase, Nat.mul_assoc b]
    rfl
  have hpl : load.Plain := plain_row ..
  have hcl : load.OnChip cfg := onChip_row _ _ _ _ h.txSize_le
  have hps : store.Plain := plain_row ..
  have hcs : store.OnChip cfg := onChip_row _ _ _ _ hstoreDepth
  set σ₁ := M.exec (.mem load) σ with hσ₁
  have huops : HoldsAluUops (getMapALUUops (p.txSize cfg) p.uopCompression) σ₁ := by
    intro n hn
    rw [hσ₁, M.exec_of_mem_ne hpl hcl σ (l := .sram .uop n) MemId.noConfusion]
    exact hset.uops n hn
  have hacc : ∀ x < p.txSize cfg * p.inputSets, σ₁ (.sram .acc x) = matrixBlock _ _ inputs b x := by
    intro x hx
    exact (M.exec_loadRow .acc _ _ h.txSize_le σ hx).trans (acc_block h hpack hset.prepared hb hx)
  obtain ⟨hout, hframe⟩ := exec_alu_out h hop M hb huops hacc
  set σ₂ := M.exec (.alu (p.aluInsn cfg (b * cfg.vtaBatch))) σ₁ with hσ₂
  have hdram : ∀ mem a, σ₂ (.dram mem a) = σ (.dram mem a) := fun mem a =>
    (hframe (.dram mem a) (by simp) (by simp)).trans (M.exec_load_dram hpl hcl σ rfl mem a)
  rw [hblock, runAll_cons, runAll_cons, runAll_cons, runAll_nil]
  refine ⟨fun n hn => ?_, ⟨fun n hn => ?_, fun k hk => ?_⟩, fun k hk x hx => ?_⟩
  · rw [M.exec_store_sram hps hcs σ₂ rfl, hframe (.sram .uop n) (by simp) (by simp)]
    exact huops n hn
  · rw [M.exec_of_mem_ne hps hcs σ₂ (l := .dram .uop n) MemId.noConfusion, hdram]
    exact hset.prepared.uop n hn
  · rw [M.exec_of_mem_ne hps hcs σ₂ (l := .dram .acc k) MemId.noConfusion, hdram]
    exact hset.prepared.acc k hk
  · rcases Nat.lt_succ_iff_lt_or_eq.mp hk with hlt | rfl
    · rw [M.exec_storeRow_of_lt _ _ _ hstoreDepth σ₂ (mul_add_lt hlt hx), hdram]
      exact hset.out k hlt x hx
    · exact (M.exec_storeRow _ _ _ hstoreDepth σ₂ hx).trans (hout x hx)

/-- The invariant after `b` turns. -/
lemma runAll_batchBlocks {σ : Memory cfg} (hset : p.Settled cfg inputs 0 σ) :
    ∀ b ≤ p.batch / cfg.vtaBatch,
      p.Settled cfg inputs b (runAll M.exec ((List.range b).flatMap (p.batchBlock cfg)) σ) := by
  intro b
  induction b with
  | zero => exact fun _ => hset
  | succ b ih =>
      intro hb
      rw [List.range_succ, List.flatMap_append, runAll_append, List.flatMap_singleton]
      exact runAll_batchBlock h hpack hop M hb (ih (Nat.le_of_succ_le hb))

/-- The outputs of the run: after the whole buffer, DRAM holds the blocks of the reference. -/
theorem outputs_of_runAll {σ : Memory cfg} (hσ : AluPrepared cfg p inputs σ) {y x : ℕ}
    (hy : y < p.batch / cfg.vtaBatch) (hx : x < p.txSize cfg) :
    runAll M.exec (p.insns cfg) σ (.dram .out (y * p.txSize cfg + x))
      = matrixBlock _ _ (p.outputsRef cfg inputs) y x := by
  have hloop : upTo p.batch cfg.vtaBatch
      = (List.range (p.batch / cfg.vtaBatch)).map (· * cfg.vtaBatch) := by
    conv_lhs => rw [← Nat.div_mul_cancel (Nat.dvd_of_mod_eq_zero h.batch_mod)]
    exact upTo_mul cfg.vtaBatch_pos
  -- the micro-ops come first
  have huopDepth : p.uopSize cfg ≤ cfg.depth .uop := h.uopSize_le
  have hset : p.Settled cfg inputs 0 (M.exec (.mem (get1DLoadStoreInsn .load .uop 0 0 (p.uopSize cfg)
      ⟨false, false, false, false⟩)) σ) := by
    have hdram := M.exec_load_dram (plain_row ..) (onChip_row .load .uop 0
      ⟨false, false, false, false⟩ huopDepth) σ rfl
    refine ⟨fun n hn => ?_, ⟨fun n hn => ?_, fun k hk => (hdram _ _).trans (hσ.acc k hk)⟩, nofun⟩
    · rw [M.exec_loadRow _ _ _ huopDepth σ (length_uops ▸ hn), Nat.zero_add]
      exact hσ.uop n hn
    · rw [hdram]
      exact hσ.uop n hn
  have hout := (runAll_batchBlocks h hpack hop M hset _ le_rfl).out y hy x hx
  rw [insns, hloop, List.flatMap_map, runAll_append, runAll_append]
  exact (congrFun (M.finish _ _ rfl) _).trans hout

/-- **`alu_test` is successful** on every machine and in every run of the three modules, for every
opcode, with a second vector or immediates, compressed micro-ops or not. -/
theorem aluTest_successful (hbatch : 0 < p.batch) {σ : Memory cfg} (hσ : AluPrepared cfg p inputs σ)
    {t : List Insn} {s : State Module DepQueue} (hrun : vtaNet.Run (p.insns cfg) t s)
    (hs : vtaNet.Complete (p.insns cfg) s) (dst : ℕ → ℕ → ℕ) :
    (unpackBuffer 8 32 dst ((runAll M.exec t σ).outputBuf ((VtaTest.alu p).outputBufSize cfg))
      p.batch p.vectorSize cfg.vtaBatch cfg.vtaBlockOut).map
        (testResult p.batch p.vectorSize (p.outputsRef cfg inputs)) = some 0 := by
  obtain ⟨hdvd, hout, hbytes, hlen⟩ := outputBuf_fits h hpack
  obtain ⟨r, hr, -, hiff⟩ := verdict hpack (runAll M.exec t σ) hdvd hout hbytes hlen dst
    (p.outputsRef cfg inputs)
  rw [hr, hiff.mpr]
  intro y hy x hx
  rw [hrun.eq_of_prefix hs (prefix_of_run hbatch h hrun)]
  exact outputs_of_runAll h hpack hop M hσ hy hx

end Turn

omit h in
/-- A right shift of one vector by two, in two batch blocks, that ends with success. -/
theorem aluTest_successful_shr : ∃ t s σ outputs,
    vtaNet.Run ((AluTest.mk .shr true 2 32 false fun _ => 2).insns config16) t s ∧
      vtaNet.Complete ((AluTest.mk .shr true 2 32 false fun _ => 2).insns config16) s ∧
      unpackBuffer 8 32 (fun _ _ => 0) ((runAll (flatExec config16) t σ).outputBuf 64) 2 32 1 16
        = some outputs ∧
      testResult 2 32 ((AluTest.mk .shr true 2 32 false fun _ => 2).outputsRef config16
        fun i j => .ofNat 32 (100 * i + j)) outputs = 0 := by
  have hasserts : (AluTest.mk .shr true 2 32 false fun _ => 2).Asserts config16 := by
    constructor <;> decide
  have hoperands : (AluTest.mk .shr true 2 32 false fun _ => 2).Operands config16
      fun i j => .ofNat 32 (100 * i + j) := by
    have himm : -2 ^ 15 ≤ (2 : ℤ) ∧ (2 : ℤ) < 2 ^ 15 := by decide
    refine ⟨nofun, fun _ _ _ => himm, ?_⟩
    intro _ i _ j _
    have htwo : (AluTest.mk .shr true 2 32 false fun _ => 2).operand config16
      (fun i j => .ofNat 32 (100 * i + j)) i j = 2#32 := rfl
    rw [htwo]
    decide
  have hreplay := (AluTest.mk .shr true 2 32 false fun _ => 2).replay config16 (by decide) hasserts
  rw [queues_zero] at hreplay
  obtain ⟨s, hrun, hs⟩ := hreplay.exists_run
  have hresult := aluTest_successful hasserts packConfig16 hoperands (flatMachine config16)
    (by decide) (aluPrepared_called config16 _ _) hrun hs fun _ _ => 0
  obtain ⟨outputs, hout, hzero⟩ := Option.map_eq_some_iff.mp hresult
  exact ⟨_, s, _, outputs, hrun, hs, hout, hzero⟩

end AluTest

end ThreeLaSim
