import ThreeLaSim.Vta.TileProduct

/-!
# What `blocked_gemm_test` computes

The stream of `blocked_gemm_test`, run in the order of the buffer on any machine: after `n` of the
channel blocks of a tile the accumulators hold the bias tile plus the products of the first
`n * block` channels, and the store of a tile brings out the tile of the reference output.

* `Settled`, `Accumulated` — the loop invariant over the steps.
* `Valid.runAll_stepBlock` — one step keeps it.
* **`Valid.outputs_of_runAll`** — after the run, DRAM holds the reference outputs.
-/

namespace ThreeLaSim

open TokenNet LoopNest Footprint

/-- A block inside a tile, counted from the first block of the matrix. -/
lemma tileBlock_lt {b block n q r : ℕ} (hb : b ∣ block) (hn : block ∣ n) (hblock : 0 < block)
    (hq : q < n / block) (hr : r < block / b) : q * block / b + r < n / b := by
  obtain ⟨m, rfl⟩ := hn
  rw [Nat.mul_div_cancel_left _ hblock] at hq
  rw [Nat.mul_div_assoc _ hb, Nat.mul_comm block, Nat.mul_div_assoc _ hb]
  exact mul_add_lt hq hr

/-- The tile a block lies in. -/
lemma tile_lt {b block n y : ℕ} (hb : b ∣ block) (hn : block ∣ n) (hblock : 0 < block)
    (hy : y < n / b) : y / (block / b) < n / block := by
  refine Nat.div_lt_of_lt_mul ?_
  rwa [Nat.div_mul_div_comm hb hn, Nat.mul_comm block, Nat.mul_div_mul_right _ _ hblock]

/-- A block lies in one tile only. -/
lemma eq_of_mem_tile {b block q q' x : ℕ} (hb : b ∣ block)
    (hx : q * block / b ≤ x ∧ x < q * block / b + block / b)
    (hx' : q' * block / b ≤ x ∧ x < q' * block / b + block / b) : q = q' := by
  rw [Nat.mul_div_assoc _ hb] at hx hx'
  by_contra hne
  exact Set.disjoint_left.mp (disjoint_regions hne) hx hx'

namespace BlockedGemm

variable (cfg : VtaConfig) (p : BlockedGemm) (inputs weights : ℕ → ℕ → BitVec 8)
  (biases : ℕ → ℕ → BitVec 32)

/-- The operands are in place, and the tiles finished before step `s` are in DRAM. -/
structure Settled (s : ℕ) (σ : Memory cfg) : Prop where
  uops : HoldsUops (p.uops cfg) σ
  prepared : GemmPrepared cfg p.batch p.channels p.channels (p.uops cfg) inputs weights biases σ
  out : ∀ k < s, k % p.steps + 1 = p.steps →
    ∀ r < p.block / cfg.vtaBatch, ∀ c < p.block / cfg.vtaBlockOut,
      σ (.dram .out ((p.stepI k / cfg.vtaBatch + r) * (p.channels / cfg.vtaBlockOut)
        + (p.stepJ k / cfg.vtaBlockOut + c)))
        = matrixBlock _ _ (gemmOutputsRef p.channels inputs weights biases)
            (p.stepI k / cfg.vtaBatch + r) (p.stepJ k / cfg.vtaBlockOut + c)

/-- The accumulators hold the output tile of step `s` after `n` channel blocks. -/
def Accumulated (s n : ℕ) (σ : Memory cfg) : Prop :=
  ∀ r < p.block / cfg.vtaBatch, ∀ c < p.block / cfg.vtaBlockOut,
    σ (.sram .acc (r * (p.block / cfg.vtaBlockOut) + c))
      = matrixBlock _ _ (partialSum inputs weights biases (n * p.block))
          (p.stepI s / cfg.vtaBatch + r) (p.stepJ s / cfg.vtaBlockOut + c)

/-- The weight and input slots of step `s` hold its tiles. -/
structure Loaded (s : ℕ) (σ : Memory cfg) : Prop where
  wgt : ∀ c < p.block / cfg.vtaBlockOut, ∀ x < p.block / cfg.vtaBlockIn,
    σ (.sram .wgt ((p.wgtInsn cfg (p.stepI s) (p.stepJ s) (p.stepK s) (p.stepL s)).slot c x))
      = matrixBlock _ _ weights (p.stepJ s / cfg.vtaBlockOut + c)
          ((p.stepK s + p.stepL s) / cfg.vtaBlockIn + x)
  inp : ∀ r < p.block / cfg.vtaBatch, ∀ x < p.block / cfg.vtaBlockIn,
    σ (.sram .inp ((p.inpInsn cfg (p.stepI s) (p.stepK s) (p.stepL s)).slot r x))
      = matrixBlock _ _ inputs (p.stepI s / cfg.vtaBatch + r)
          ((p.stepK s + p.stepL s) / cfg.vtaBlockIn + x)

variable {cfg p inputs weights biases} {s n : ℕ} {σ τ : Memory cfg}

/-- What is settled is in DRAM and in the micro-op memory. -/
lemma Settled.of_eq (hset : p.Settled cfg inputs weights biases s σ)
    (hdram : ∀ mem b, τ (.dram mem b) = σ (.dram mem b))
    (huop : ∀ a, τ (.sram .uop a) = σ (.sram .uop a)) :
    p.Settled cfg inputs weights biases s τ where
  uops a ha := (huop a).trans (hset.uops a ha)
  prepared := hset.prepared.of_eq fun mem b _ => hdram mem b
  out k hk hlast r hr c hc := (hdram _ _).trans (hset.out k hk hlast r hr c hc)

lemma Accumulated.of_eq (hacc : p.Accumulated cfg inputs weights biases s n σ)
    (heq : ∀ a, τ (.sram .acc a) = σ (.sram .acc a)) :
    p.Accumulated cfg inputs weights biases s n τ := fun r hr c hc =>
  (heq _).trans (hacc r hr c hc)

/-- Bias load and store use the slots of a tile in row-major order. -/
lemma slot_tile (i j r c : ℕ) :
    (p.accInsn cfg i j).slot r c = r * (p.block / cfg.vtaBlockOut) + c ∧
    (p.storeInsn cfg i j).slot r c = r * (p.block / cfg.vtaBlockOut) + c := by
  simp [MemInsn.slot, accInsn, storeInsn, get2DLoadStoreInsn]

namespace Valid

variable (h : p.Valid cfg)
include h

/-! ## The blocks of a step -/

lemma vtaBatch_dvd_stepI (s : ℕ) : cfg.vtaBatch ∣ p.stepI s :=
  h.asserts.vtaBatch_dvd.trans (Nat.dvd_mul_left _ _)

lemma blockOut_dvd_stepJ (s : ℕ) : cfg.vtaBlockOut ∣ p.stepJ s :=
  h.asserts.blockOut_dvd.trans (Nat.dvd_mul_left _ _)

lemma blockIn_dvd_inner (s : ℕ) : cfg.vtaBlockIn ∣ p.stepK s + p.stepL s := by
  rw [stepK_add_stepL]
  exact h.asserts.blockIn_dvd.trans (Nat.dvd_mul_left _ _)

section Blocks

variable (hs : s < p.allSteps)
include hs

lemma rowBlock_lt {r : ℕ} (hr : r < p.block / cfg.vtaBatch) :
    p.stepI s / cfg.vtaBatch + r < p.batch / cfg.vtaBatch :=
  tileBlock_lt h.asserts.vtaBatch_dvd h.asserts.block_dvd_batch h.block_pos
    (Nat.div_lt_of_lt_mul (Nat.div_lt_of_lt_mul (hs.trans_eq (by rw [allSteps, tiles]; ring)))) hr

omit hs in
lemma colBlock_lt {c : ℕ} (hc : c < p.block / cfg.vtaBlockOut) :
    p.stepJ s / cfg.vtaBlockOut + c < p.channels / cfg.vtaBlockOut :=
  tileBlock_lt h.asserts.blockOut_dvd h.asserts.block_dvd_channels h.block_pos
    (Nat.mod_lt _ h.steps_pos) hc

omit hs in
lemma innerBlock_lt {x : ℕ} (hx : x < p.block / cfg.vtaBlockIn) :
    (p.stepK s + p.stepL s) / cfg.vtaBlockIn + x < p.channels / cfg.vtaBlockIn := by
  rw [stepK_add_stepL]
  exact tileBlock_lt h.asserts.blockIn_dvd h.asserts.block_dvd_channels h.block_pos
    (Nat.mod_lt _ h.steps_pos) hx

/-- The instructions of a step are in the buffer. -/
lemma mem_insns_of_step {x : GemmLabel × Insn} (hx : x ∈ p.stepBlock cfg s) :
    x.2 ∈ p.insns cfg :=
  snd_mem_insns (h.stepPrefix_subset (s := s + 1) hs (by
    rw [stepPrefix_succ]
    exact List.mem_append_right _ hx))

end Blocks

/-- The row-major offsets of the transfers, in blocks. -/
lemma dramBase_eq (s : ℕ) :
    (p.accInsn cfg (p.stepI s) (p.stepJ s)).dramBase
      = p.stepI s / cfg.vtaBatch * (p.channels / cfg.vtaBlockOut) + p.stepJ s / cfg.vtaBlockOut ∧
    (p.wgtInsn cfg (p.stepI s) (p.stepJ s) (p.stepK s) (p.stepL s)).dramBase
      = p.stepJ s / cfg.vtaBlockOut * (p.channels / cfg.vtaBlockIn)
        + (p.stepK s + p.stepL s) / cfg.vtaBlockIn ∧
    (p.inpInsn cfg (p.stepI s) (p.stepK s) (p.stepL s)).dramBase
      = p.stepI s / cfg.vtaBatch * (p.channels / cfg.vtaBlockIn)
        + (p.stepK s + p.stepL s) / cfg.vtaBlockIn := by
  have hin := h.asserts.blockIn_dvd.trans h.asserts.block_dvd_channels
  have hout := h.asserts.blockOut_dvd.trans h.asserts.block_dvd_channels
  refine ⟨blockOffset_eq cfg.vtaBlockOut_pos hout _ _, ?_, ?_⟩
  · rw [← blockOffset_eq cfg.vtaBlockIn_pos hin, ← Nat.add_assoc]
    rfl
  · rw [← blockOffset_eq cfg.vtaBlockIn_pos hin, ← Nat.add_assoc]
    rfl

/-! ## One step -/

section Step

variable (hfit : p.FitsChip cfg) (hpack : PackConfig cfg) (M : Machine cfg) (hs : s < p.allSteps)
include hfit hpack hs

/-- The bias load at the start of a tile. -/
lemma runAll_headAt (hset : p.Settled cfg inputs weights biases s σ)
    (hacc : s % p.steps ≠ 0 → p.Accumulated cfg inputs weights biases s (s % p.steps) σ) :
    p.Settled cfg inputs weights biases s (runAll (fun x => M.exec x.2) (p.headAt cfg s) σ) ∧
    p.Accumulated cfg inputs weights biases s (s % p.steps)
      (runAll (fun x => M.exec x.2) (p.headAt cfg s) σ) := by
  rw [headAt]
  split_ifs with hfirst
  · have hmem := h.mem_insns_of_step hs ((p.mem_stepBlock cfg).mpr (.inl ⟨hfirst, rfl⟩))
    have hp := h.plain hmem
    have hc := h.onChip hfit hmem
    refine ⟨hset.of_eq (fun mem b => M.exec_load_dram hp hc σ rfl mem b)
      fun a => M.exec_of_mem_ne hp hc σ (l := .sram .uop a) MemId.noConfusion, fun r hr c hc' => ?_⟩
    have hblock := M.exec_load_slot hp hc σ rfl (h.dramBase_eq s).1 hr hc'
    rw [(slot_tile _ _ _ _).1] at hblock
    refine hblock.trans ?_
    rw [hfirst, Nat.zero_mul, partialSum_zero]
    exact hset.prepared.acc_block hpack (h.asserts.vtaBatch_dvd.trans h.asserts.block_dvd_batch)
      (h.asserts.blockOut_dvd.trans h.asserts.block_dvd_channels) (h.rowBlock_lt hs hr)
      (h.colBlock_lt hc')
  · exact ⟨hset, hacc hfirst⟩

/-- The two loads of a step. -/
lemma runAll_loads (hset : p.Settled cfg inputs weights biases s σ)
    (hacc : p.Accumulated cfg inputs weights biases s n σ) :
    p.Settled cfg inputs weights biases s
      (runAll (fun x => M.exec x.2) [p.wgtAt cfg s, p.inpAt cfg s] σ) ∧
    p.Accumulated cfg inputs weights biases s n
      (runAll (fun x => M.exec x.2) [p.wgtAt cfg s, p.inpAt cfg s] σ) ∧
    p.Loaded cfg inputs weights s
      (runAll (fun x => M.exec x.2) [p.wgtAt cfg s, p.inpAt cfg s] σ) := by
  have hin := h.asserts.blockIn_dvd.trans h.asserts.block_dvd_channels
  have hwgt := h.mem_insns_of_step hs ((p.mem_stepBlock cfg).mpr (.inr (.inl rfl)))
  have hinp := h.mem_insns_of_step hs ((p.mem_stepBlock cfg).mpr (.inr (.inr (.inl rfl))))
  have hpw := h.plain hwgt
  have hcw := h.onChip hfit hwgt
  have hpi := h.plain hinp
  have hci := h.onChip hfit hinp
  set σ' := M.exec (p.wgtAt cfg s).2 σ with hσ'
  have hset' : p.Settled cfg inputs weights biases s σ' :=
    hset.of_eq (fun mem b => M.exec_load_dram hpw hcw σ rfl mem b)
      fun a => M.exec_of_mem_ne hpw hcw σ (l := .sram .uop a) nofun
  refine ⟨?_, ?_, ?_, ?_⟩
  · exact hset'.of_eq (fun mem b => M.exec_load_dram hpi hci σ' rfl mem b)
      fun a => M.exec_of_mem_ne hpi hci σ' (l := .sram .uop a) nofun
  · intro r hr c hc
    refine (M.exec_of_mem_ne hpi hci σ' (l := .sram .acc _) nofun).trans ?_
    refine (M.exec_of_mem_ne hpw hcw σ (l := .sram .acc _) nofun).trans ?_
    exact hacc r hr c hc
  · intro c hc x hx
    refine (M.exec_of_mem_ne hpi hci σ' (l := .sram .wgt _) nofun).trans ?_
    refine (M.exec_load_slot hpw hcw σ rfl (h.dramBase_eq s).2.1 hc hx).trans ?_
    exact hset.prepared.wgt_block hpack hin
      (h.asserts.blockOut_dvd.trans h.asserts.block_dvd_channels) (h.colBlock_lt hc)
      (h.innerBlock_lt hx)
  · intro r hr x hx
    refine (M.exec_load_slot hpi hci σ' rfl (h.dramBase_eq s).2.2 hr hx).trans ?_
    exact hset'.prepared.inp_block hpack
      (h.asserts.vtaBatch_dvd.trans h.asserts.block_dvd_batch) hin (h.rowBlock_lt hs hr)
      (h.innerBlock_lt hx)
omit hfit hpack in
/-- The triples of the GEMM of a step, from a memory that holds the micro-ops. -/
lemma expand_gemmAt (hσ : HoldsUops (p.uops cfg) σ) :
    ((p.gemmInsn cfg (p.stepI s) (p.stepJ s) (p.stepK s) (p.stepL s)).expand σ.uops).Perm
      ((tileTriples (p.block / cfg.vtaBatch) (p.block / cfg.vtaBlockIn)
          (p.block / cfg.vtaBlockOut)).map fun (r, c, x) =>
        ⟨r * (p.block / cfg.vtaBlockOut) + c,
          (p.inpInsn cfg (p.stepI s) (p.stepK s) (p.stepL s)).slot r x,
          (p.wgtInsn cfg (p.stepI s) (p.stepJ s) (p.stepK s) (p.stepL s)).slot c x⟩) := by
  have hg := h.mem_insns_of_step hs ((p.mem_stepBlock cfg).mpr (.inr (.inr (.inr (.inl rfl)))))
  rw [GemInsn.expand_uops hσ h.length_uops_le (h.gemm_uopEnd_le hg)]
  have hl : p.stepL s ∈ upTo (p.block * p.virtualThreads) p.block := by
    refine (mem_upTo h.block_pos).mpr ⟨Nat.dvd_mul_left _ _, ?_⟩
    rw [stepL, Nat.mul_comm p.block]
    exact Nat.mul_lt_mul_of_pos_right (Nat.mod_lt _ h.threads_pos) h.block_pos
  have hperm := expand_gemmInsn h.block_pos h.asserts h.threads_eq hl (i := p.stepI s)
    (j := p.stepJ s) (k := p.stepK s)
  simp only [(slot_tile _ _ _ _).1] at hperm
  exact hperm

omit hpack in
/-- The GEMM of a step accumulates one more channel block. -/
lemma exec_gemmAt (hblock : cfg.vtaBlockIn ≤ 63) (hset : p.Settled cfg inputs weights biases s σ)
    (hacc : p.Accumulated cfg inputs weights biases s (s % p.steps) σ)
    (hload : p.Loaded cfg inputs weights s σ) :
    p.Settled cfg inputs weights biases s (M.exec (p.gemmAt cfg s).2 σ) ∧
    p.Accumulated cfg inputs weights biases s (s % p.steps + 1) (M.exec (p.gemmAt cfg s).2 σ) ∧
    ∀ r < p.block / cfg.vtaBatch, ∀ c < p.block / cfg.vtaBlockOut,
      M.exec (p.gemmAt cfg s).2 σ (.sram .out (r * (p.block / cfg.vtaBlockOut) + c))
        = fun b o => accum2Out
            (M.exec (p.gemmAt cfg s).2 σ (.sram .acc (r * (p.block / cfg.vtaBlockOut) + c)) b o) := by
  set g := p.gemmInsn cfg (p.stepI s) (p.stepJ s) (p.stepK s) (p.stepL s) with hgdef
  have hg := h.mem_insns_of_step hs ((p.mem_stepBlock cfg).mpr (.inr (.inr (.inr (.inl rfl)))))
  have hop : g.opcode = .gemm := getGEMMInsn_opcode ..
  have hreset : g.resetReg = false := getGEMMInsn_resetReg ..
  have hexpand : g.expand σ.uops = g.expand (p.uops cfg) :=
    GemInsn.expand_uops hset.uops h.length_uops_le (h.gemm_uopEnd_le hg)
  have hchip : g.OnChip cfg σ.uops :=
    ⟨(h.gemm_onChip hfit hg).uopEnd_le, by rw [hexpand]; exact (h.gemm_onChip hfit hg).slots_lt⟩
  have hperm := h.expand_gemmAt hs hset.uops
  have hinner : 0 < p.block / cfg.vtaBlockIn :=
    Nat.div_pos (Nat.le_of_dvd h.block_pos h.asserts.blockIn_dvd) cfg.vtaBlockIn_pos
  refine ⟨hset.of_eq (fun mem b => M.gemm_frame g σ hop hreset hchip _ nofun nofun)
    fun a => M.gemm_frame g σ hop hreset hchip _ nofun nofun, fun r hr c hc => ?_, fun r hr c hc => ?_⟩
  · refine (M.gemm_acc g σ hop hreset hchip _).trans ?_
    funext b o
    -- the tiles, seen from their first entries
    have hinp : ∀ r x, r < p.block / cfg.vtaBatch → x < p.block / cfg.vtaBlockIn →
        σ (.sram .inp ((p.inpInsn cfg (p.stepI s) (p.stepK s) (p.stepL s)).slot r x))
          = matrixBlock _ _ (fun y x => inputs (p.stepI s + y) (p.stepK s + p.stepL s + x)) r x := by
      intro r x hr hx
      rw [hload.inp r hr x hx]
      exact matrixBlock_shift inputs (h.vtaBatch_dvd_stepI s) (h.blockIn_dvd_inner s) r x
    have hwgt : ∀ c x, c < p.block / cfg.vtaBlockOut → x < p.block / cfg.vtaBlockIn →
        σ (.sram .wgt ((p.wgtInsn cfg (p.stepI s) (p.stepJ s) (p.stepK s) (p.stepL s)).slot c x))
          = matrixBlock _ _ (fun y x => weights (p.stepJ s + y) (p.stepK s + p.stepL s + x)) c x := by
      intro c x hc hx
      rw [hload.wgt c hc x hx]
      exact matrixBlock_shift weights (h.blockOut_dvd_stepJ s) (h.blockIn_dvd_inner s) c x
    rw [gemmAcc_tile _ _ hblock hperm hinp hwgt hr hc, hacc r hr c hc,
      Nat.div_mul_cancel h.asserts.blockIn_dvd, stepK_add_stepL]
    have hrow : (p.stepI s / cfg.vtaBatch + r) * cfg.vtaBatch + b
        = p.stepI s + (r * cfg.vtaBatch + b) := by
      rw [Nat.add_mul, Nat.div_mul_cancel (h.vtaBatch_dvd_stepI s),
        Nat.add_assoc]
    have hcol : (p.stepJ s / cfg.vtaBlockOut + c) * cfg.vtaBlockOut + o
        = p.stepJ s + (c * cfg.vtaBlockOut + o) := by
      rw [Nat.add_mul, Nat.div_mul_cancel (h.blockOut_dvd_stepJ s),
        Nat.add_assoc]
    rw [matrixBlock, matrixBlock, Nat.succ_mul, partialSum_add, hrow, hcol]
  · refine (M.gemm_out g σ hop hreset hchip _).trans ?_
    rw [if_pos (exists_dst _ _ hperm hinner hr hc)]
    funext b o
    exact congrArg accum2Out (congrFun₂ (M.gemm_acc g σ hop hreset hchip _).symm b o)

omit hpack in
/-- The store at the end of a tile. -/
lemma runAll_lastAt (hset : p.Settled cfg inputs weights biases s σ)
    (hout : s % p.steps + 1 = p.steps → ∀ r < p.block / cfg.vtaBatch, ∀ c < p.block / cfg.vtaBlockOut,
      σ (.sram .out (r * (p.block / cfg.vtaBlockOut) + c))
        = matrixBlock _ _ (gemmOutputsRef p.channels inputs weights biases)
            (p.stepI s / cfg.vtaBatch + r) (p.stepJ s / cfg.vtaBlockOut + c)) :
    p.Settled cfg inputs weights biases (s + 1)
      (runAll (fun x => M.exec x.2) (p.lastAt cfg s) σ) := by
  rw [lastAt]
  split_ifs with hlast
  · have hmem := h.mem_insns_of_step hs
      ((p.mem_stepBlock cfg).mpr (.inr (.inr (.inr (.inr ⟨hlast, rfl⟩)))))
    have hp := h.plain hmem
    have hc := h.onChip hfit hmem
    refine ⟨fun a ha => ?_, ?_, fun k hk hklast r hr c hc' => ?_⟩
    · exact (M.exec_store_sram hp hc σ rfl .uop a).trans (hset.uops a ha)
    · exact hset.prepared.of_eq fun mem b hne => M.exec_of_mem_ne hp hc σ (l := .dram mem b) hne
    · rcases Nat.lt_succ_iff_lt_or_eq.mp hk with hlt | rfl
      · -- another tile
        refine (M.exec_store_of_outside hp hc σ rfl (h.dramBase_eq s).1 ?_ (h.colBlock_lt hc') ?_).trans
          (hset.out k hlt hklast r hr c hc')
        · have hend := h.colBlock_lt (s := s) (Nat.sub_one_lt (Nat.zero_lt_of_lt hc').ne')
          show p.stepJ s / cfg.vtaBlockOut + p.block / cfg.vtaBlockOut ≤ p.channels / cfg.vtaBlockOut
          omega
        · rintro ⟨hrow, hcol⟩
          have hi : s / p.steps / p.steps = k / p.steps / p.steps :=
            eq_of_mem_tile h.asserts.vtaBatch_dvd hrow ⟨Nat.le_add_right _ _, Nat.add_lt_add_left hr _⟩
          have hj : s / p.steps % p.steps = k / p.steps % p.steps :=
            eq_of_mem_tile h.asserts.blockOut_dvd hcol ⟨Nat.le_add_right _ _, Nat.add_lt_add_left hc' _⟩
          have htile : s / p.steps = k / p.steps := by
            rw [← Nat.div_add_mod' (s / p.steps) p.steps, hi, hj, Nat.div_add_mod']
          have hdivs := Nat.div_add_mod' s p.steps
          have hdivk := Nat.div_add_mod' k p.steps
          rw [htile] at hdivs
          omega
      · refine (M.exec_store_block hp hc σ rfl (h.dramBase_eq k).1 hr hc').trans ?_
        rw [← hout hlast r hr c hc', ← (slot_tile _ _ _ _).2]
        rfl
  · refine ⟨hset.uops, hset.prepared, fun k hk hklast => hset.out k ?_ hklast⟩
    exact (Nat.lt_succ_iff_lt_or_eq.mp hk).resolve_right fun heq => hlast (heq ▸ hklast)

end Step

/-! ## The run -/

section Run

variable (hfit : p.FitsChip cfg) (hpack : PackConfig cfg) (M : Machine cfg)
  (hblock : cfg.vtaBlockIn ≤ 63)
include hfit hpack hblock

/-- **One step of the loop** keeps the invariant. -/
lemma runAll_stepBlock (hs : s < p.allSteps) (hset : p.Settled cfg inputs weights biases s σ)
    (hacc : s % p.steps ≠ 0 → p.Accumulated cfg inputs weights biases s (s % p.steps) σ) :
    p.Settled cfg inputs weights biases (s + 1)
      (runAll (fun x => M.exec x.2) (p.stepBlock cfg s) σ) ∧
    ((s + 1) % p.steps ≠ 0 → p.Accumulated cfg inputs weights biases (s + 1) ((s + 1) % p.steps)
      (runAll (fun x => M.exec x.2) (p.stepBlock cfg s) σ)) := by
  have hsplit : p.stepBlock cfg s
      = p.headAt cfg s ++ ([p.wgtAt cfg s, p.inpAt cfg s] ++ ([p.gemmAt cfg s] ++ p.lastAt cfg s)) := by
    simp [stepBlock]
  obtain ⟨hset₁, hacc₁⟩ := h.runAll_headAt hfit hpack M hs hset hacc
  obtain ⟨hset₂, hacc₂, hload⟩ := h.runAll_loads hfit hpack M hs hset₁ hacc₁
  obtain ⟨hset₃, hacc₃, hout⟩ := h.exec_gemmAt hfit M hs hblock hset₂ hacc₂ hload
  rw [hsplit, runAll_append, runAll_append, runAll_append]
  refine ⟨h.runAll_lastAt hfit M hs hset₃ fun hlast r hr c hc => ?_, fun hnext => ?_⟩
  · refine (hout r hr c hc).trans ?_
    have hsum := hacc₃ r hr c hc
    rw [hlast, ← h.channels_eq] at hsum
    rw [hsum]
    funext b o
    rw [accum2Out_eq, matrixBlock, matrixBlock, gemmOutputsRef_eq]
  · -- the tile goes on
    have hlast : s % p.steps + 1 ≠ p.steps := by
      intro heq
      rw [succ_mod h.steps_pos, if_pos heq] at hnext
      exact hnext rfl
    obtain ⟨-, hdiv, hmod⟩ := (succ_div_mod h.steps_pos s).resolve_left fun hend => by
      have := h.steps_pos
      omega
    rw [lastAt, if_neg hlast, hmod]
    have hsame : p.stepI (s + 1) = p.stepI s ∧ p.stepJ (s + 1) = p.stepJ s := by
      simp only [stepI, stepJ, hdiv, and_self]
    intro r hr c hc
    rw [hsame.1, hsame.2]
    exact hacc₃ r hr c hc

/-- The invariant before step `s`. -/
lemma runAll_stepPrefix
    (hσ : GemmPrepared cfg p.batch p.channels p.channels (p.uops cfg) inputs weights biases σ) :
    ∀ s ≤ p.allSteps,
      p.Settled cfg inputs weights biases s
        (runAll (fun x => M.exec x.2) (p.stepPrefix cfg s) σ) ∧
      (s % p.steps ≠ 0 → p.Accumulated cfg inputs weights biases s (s % p.steps)
        (runAll (fun x => M.exec x.2) (p.stepPrefix cfg s) σ)) := by
  intro s
  induction s with
  | zero =>
      intro _
      have hmem : .mem (p.uopInsn cfg) ∈ p.insns cfg := mem_insns.mpr (.inl rfl)
      have hdram := M.exec_load_dram (h.plain hmem) (h.onChip hfit hmem) σ rfl
      refine ⟨⟨h.holdsUops_uopInsn hfit M hσ.uop, hσ.of_eq fun mem b _ => hdram mem b, ?_⟩, ?_⟩
      · exact fun k hk => absurd hk (Nat.not_lt_zero k)
      · exact fun hne => absurd (Nat.zero_mod _) hne
  | succ s ih =>
      intro hs
      obtain ⟨hset, hacc⟩ := ih (Nat.le_of_succ_le hs)
      rw [stepPrefix_succ, runAll_append]
      exact h.runAll_stepBlock hfit hpack M hblock hs hset hacc

/-- **The outputs of the run**: after the whole buffer, DRAM holds the blocks of the reference. -/
theorem outputs_of_runAll
    (hσ : GemmPrepared cfg p.batch p.channels p.channels (p.uops cfg) inputs weights biases σ)
    {y x : ℕ} (hy : y < p.batch / cfg.vtaBatch) (hx : x < p.channels / cfg.vtaBlockOut) :
    runAll M.exec (p.insns cfg) σ (.dram .out (y * (p.channels / cfg.vtaBlockOut) + x))
      = matrixBlock _ _ (gemmOutputsRef p.channels inputs weights biases) y x := by
  have hsteps := h.steps_pos
  have hR : 0 < p.block / cfg.vtaBatch :=
    Nat.div_pos (Nat.le_of_dvd h.block_pos h.asserts.vtaBatch_dvd) cfg.vtaBatch_pos
  have hC : 0 < p.block / cfg.vtaBlockOut :=
    Nat.div_pos (Nat.le_of_dvd h.block_pos h.asserts.blockOut_dvd) cfg.vtaBlockOut_pos
  -- the tile of the block, and its last step
  set q := y / (p.block / cfg.vtaBatch) with hq
  set t := x / (p.block / cfg.vtaBlockOut) with ht
  have hqlt : q < p.batch / p.block :=
    tile_lt h.asserts.vtaBatch_dvd h.asserts.block_dvd_batch h.block_pos hy
  have htlt : t < p.steps :=
    tile_lt h.asserts.blockOut_dvd h.asserts.block_dvd_channels h.block_pos hx
  obtain ⟨hdiv, hmod⟩ := mul_add_div_mod (a := q * p.steps + t) (Nat.sub_one_lt hsteps.ne')
  obtain ⟨hdiv', hmod'⟩ := mul_add_div_mod (a := q) htlt
  have hk : (q * p.steps + t) * p.steps + (p.steps - 1) < p.allSteps :=
    mul_add_lt (mul_add_lt hqlt htlt) (Nat.sub_one_lt hsteps.ne')
  have hset := (h.runAll_stepPrefix hfit hpack M hblock hσ _ le_rfl).1
  have hout := hset.out _ hk (by rw [hmod, Nat.sub_add_cancel hsteps])
    (y % (p.block / cfg.vtaBatch)) (Nat.mod_lt y hR) (x % (p.block / cfg.vtaBlockOut)) (Nat.mod_lt x hC)
  rw [stepI, stepJ, hdiv, hdiv', hmod', Nat.mul_div_assoc _ h.asserts.vtaBatch_dvd,
    Nat.mul_div_assoc _ h.asserts.blockOut_dvd, hq, ht, Nat.div_add_mod', Nat.div_add_mod'] at hout
  rw [insns, runAll_map, h.labelled_eq_stepPrefix, runAll_append]
  exact (congrFun (M.finish _ _ rfl) _).trans hout

end Run

end Valid

end BlockedGemm

end ThreeLaSim
