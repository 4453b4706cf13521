import ThreeLaSim.Vta.Streams

/-!
# The stream of `blocked_gemm_test` as one sequence of steps

The four nested loops of `blocked_gemm_test` visit `n` channel blocks for each of `B * n` output
tiles, where `n = channels / block` and `B = batch / block`.  Here they are numbered through: step
`s` is channel block `s % n` of tile `s / n`.  `labelled_eq` rewrites the instruction buffer as one
loop over the steps, in which the bias load of a tile goes with its first step and the store with
its last, and the flag lemmas (`popAt_iff`, `pushPrevAt_iff`, `pushNextAt_iff`) restate the boundary
conditions on the four loop indices as conditions on `s`.
-/

namespace ThreeLaSim

open LoopNest

namespace BlockedGemm

variable (cfg : VtaConfig) (p : BlockedGemm)

/-- The parameters for which the token protocol is claimed. -/
structure Valid : Prop where
  batch_pos : 0 < p.batch
  channels_pos : 0 < p.channels
  block_pos : 0 < p.block
  asserts : p.Asserts cfg
  threads : p.virtualThreads = 1 ∨ p.virtualThreads = 2 ∧ 2 * p.block ∣ p.channels

/-- Channel blocks: the steps of a tile, and the tiles in a row of tiles. -/
def steps : ℕ := p.channels / p.block

/-- All output tiles. -/
def tiles : ℕ := p.batch / p.block * p.steps

/-- All steps of all tiles. -/
def allSteps : ℕ := p.tiles * p.steps

/-- The loop index `i` of step `s`. -/
def stepI (s : ℕ) : ℕ := s / p.steps / p.steps * p.block

/-- The loop index `j` of step `s`. -/
def stepJ (s : ℕ) : ℕ := s / p.steps % p.steps * p.block

/-- The loop index `k` of step `s`. -/
def stepK (s : ℕ) : ℕ := s % p.steps / p.virtualThreads * (p.block * p.virtualThreads)

/-- The loop index `l` of step `s`. -/
def stepL (s : ℕ) : ℕ := s % p.steps % p.virtualThreads * p.block

/-- The bias load of the tile of step `s`. -/
def accAt (s : ℕ) : GemmLabel × Insn :=
  (.acc (p.stepI s) (p.stepJ s), .mem (p.accInsn cfg (p.stepI s) (p.stepJ s)))

/-- The weight load of step `s`. -/
def wgtAt (s : ℕ) : GemmLabel × Insn :=
  (.wgt (p.stepI s) (p.stepJ s) (p.stepK s + p.stepL s),
    .mem (p.wgtInsn cfg (p.stepI s) (p.stepJ s) (p.stepK s) (p.stepL s)))

/-- The input load of step `s`. -/
def inpAt (s : ℕ) : GemmLabel × Insn :=
  (.inp (p.stepI s) (p.stepJ s) (p.stepK s + p.stepL s),
    .mem (p.inpInsn cfg (p.stepI s) (p.stepK s) (p.stepL s)))

/-- The GEMM of step `s`. -/
def gemmAt (s : ℕ) : GemmLabel × Insn :=
  (.gemm (p.stepI s) (p.stepJ s) (p.stepK s + p.stepL s),
    .gem (p.gemmInsn cfg (p.stepI s) (p.stepJ s) (p.stepK s) (p.stepL s)))

/-- The store of the tile of step `s`. -/
def storeAt (s : ℕ) : GemmLabel × Insn :=
  (.store (p.stepI s) (p.stepJ s), .mem (p.storeInsn cfg (p.stepI s) (p.stepJ s)))

/-- The pop flag of the weight load of step `s`. -/
def popAt (s : ℕ) : Bool := p.pop (p.stepI s) (p.stepJ s) (p.stepK s) (p.stepL s)

/-- The push-previous flag of the GEMM of step `s`. -/
def pushPrevAt (s : ℕ) : Bool := p.pushPrev (p.stepI s) (p.stepJ s) (p.stepK s) (p.stepL s)

/-- The push-next flag of the GEMM of step `s`. -/
def pushNextAt (s : ℕ) : Bool := p.pushNext (p.stepK s) (p.stepL s)

/-- What is written before the GEMM-independent part of a step: the bias load, at a tile's start. -/
def headAt (s : ℕ) : List (GemmLabel × Insn) :=
  if s % p.steps = 0 then [p.accAt cfg s] else []

/-- What is written after a step: the store, at a tile's end. -/
def lastAt (s : ℕ) : List (GemmLabel × Insn) :=
  if s % p.steps + 1 = p.steps then [p.storeAt cfg s] else []

/-- Everything written for step `s`. -/
def stepBlock (s : ℕ) : List (GemmLabel × Insn) :=
  p.headAt cfg s ++ [p.wgtAt cfg s, p.inpAt cfg s, p.gemmAt cfg s] ++ p.lastAt cfg s

/-- The regions of the virtual threads follow each other. -/
lemma sramOffset_eq {a c : ℕ} (ha : a ∣ p.block) (hc : c ∣ p.block) (e : ℕ) :
    e * p.block / a * p.block / c = e * (p.block / c * (p.block / a)) := by
  rw [Nat.mul_div_assoc e ha, Nat.mul_div_assoc _ hc]
  ring

/-- `k + l` of step `s`. -/
lemma stepK_add_stepL (s : ℕ) : p.stepK s + p.stepL s = s % p.steps * p.block := by
  have hdiv := Nat.div_add_mod' (s % p.steps) p.virtualThreads
  calc p.stepK s + p.stepL s
      = (s % p.steps / p.virtualThreads * p.virtualThreads
          + s % p.steps % p.virtualThreads) * p.block := by
        rw [stepK, stepL]
        ring
    _ = s % p.steps * p.block := by rw [hdiv]

namespace Valid

variable {cfg} {p} (h : p.Valid cfg)
include h

lemma channels_eq : p.channels = p.steps * p.block :=
  (Nat.div_mul_cancel h.asserts.block_dvd_channels).symm

lemma batch_eq : p.batch = p.batch / p.block * p.block :=
  (Nat.div_mul_cancel h.asserts.block_dvd_batch).symm

lemma steps_pos : 0 < p.steps := by
  refine Nat.pos_of_ne_zero fun h0 => ?_
  have hpos := h.channels_pos
  rw [h.channels_eq, h0, Nat.zero_mul] at hpos
  exact hpos.false

lemma batchBlocks_pos : 0 < p.batch / p.block := by
  refine Nat.pos_of_ne_zero fun h0 => ?_
  have hpos := h.batch_pos
  rw [h.batch_eq, h0, Nat.zero_mul] at hpos
  exact hpos.false

lemma threads_pos : 0 < p.virtualThreads := by
  rcases h.threads with h | ⟨h, -⟩ <;> omega

/-- A tile is cut into whole turns of the virtual threads. -/
lemma threads_dvd : p.virtualThreads ∣ p.steps := by
  rcases h.threads with hvt | ⟨hvt, hdvd⟩
  · rw [hvt]
    exact one_dvd _
  · rw [hvt]
    rw [h.channels_eq] at hdvd
    exact Nat.dvd_of_mul_dvd_mul_right h.block_pos hdvd

/-- The column loops. -/
lemma upTo_channels : upTo p.channels p.block = (List.range p.steps).map (· * p.block) := by
  conv_lhs => rw [h.channels_eq]
  exact upTo_mul h.block_pos

/-- **The instruction buffer as one loop over the steps.** -/
theorem labelled_eq :
    p.labelled cfg = [(.uop, .mem (p.uopInsn cfg))]
      ++ (List.range p.allSteps).flatMap (p.stepBlock cfg)
      ++ [(.finish, .gem (getFinishInsn false true))] := by
  have hI : upTo p.batch p.block = (List.range (p.batch / p.block)).map (· * p.block) := by
    conv_lhs => rw [h.batch_eq]
    exact upTo_mul h.block_pos
  have hJ : upTo p.outFeat p.block = (List.range p.steps).map (· * p.block) := h.upTo_channels
  have hK : upTo p.inFeat (p.block * p.virtualThreads)
      = (List.range (p.steps / p.virtualThreads)).map (· * (p.block * p.virtualThreads)) := by
    have : p.inFeat = p.steps / p.virtualThreads * (p.block * p.virtualThreads) := by
      conv_lhs => rw [inFeat, h.channels_eq, ← Nat.div_mul_cancel h.threads_dvd]
      ring
    rw [this]
    exact upTo_mul (Nat.mul_pos h.block_pos h.threads_pos)
  have hL : upTo (p.block * p.virtualThreads) p.block
      = (List.range p.virtualThreads).map (· * p.block) := by
    rw [Nat.mul_comm]
    exact upTo_mul h.block_pos
  -- the two inner loops run over the steps of a tile
  have htile : ∀ i j,
      [(GemmLabel.acc i j, Insn.mem (p.accInsn cfg i j))] ++
        ((upTo p.inFeat (p.block * p.virtualThreads)).flatMap fun k =>
          (upTo (p.block * p.virtualThreads) p.block).flatMap fun l => p.stepInsns cfg i j k l) ++
        [(.store i j, .mem (p.storeInsn cfg i j))]
      = (List.range p.steps).flatMap fun t =>
          (if t = 0 then [(.acc i j, .mem (p.accInsn cfg i j))] else []) ++
          p.stepInsns cfg i j (t / p.virtualThreads * (p.block * p.virtualThreads))
            (t % p.virtualThreads * p.block) ++
          (if t + 1 = p.steps then [(.store i j, .mem (p.storeInsn cfg i j))] else []) := by
    intro i j
    rw [hK, hL]
    simp only [List.flatMap_map]
    rw [flatMap_range_mul, Nat.div_mul_cancel h.threads_dvd]
    exact flatMap_range_frame _ _ _ h.steps_pos
  rw [labelled]
  simp only [htile]
  rw [hI, hJ]
  simp only [List.flatMap_map]
  rw [flatMap_range_mul p.steps, flatMap_range_mul p.steps]
  rfl

/-! ## The dependence flags of a step -/

/-- The comparisons of a loop index with its last value. -/
lemma mul_block_eq_iff (x m : ℕ) :
    ((x * p.block : ℕ) : ℤ) = ((m * p.block : ℕ) : ℤ) - (p.block : ℕ) ↔ x + 1 = m := by
  rw [eq_sub_iff_add_eq]
  norm_cast
  rw [← Nat.succ_mul, Nat.mul_left_inj h.block_pos.ne']

/-- The bias load waits for the store of the tile before. -/
lemma accPopNext_iff (s : ℕ) :
    (decide (p.stepI s > 0) || decide (p.stepJ s > 0)) = true ↔ 0 < s / p.steps := by
  rw [pos_iff_div_or_mod p.steps (s / p.steps)]
  simp [stepI, stepJ, h.block_pos]

/-- Some loop index has moved: the step is not the first one. -/
lemma index_pos_iff (s : ℕ) :
    (p.stepI s > 0 ∨ p.stepJ s > 0) ∨ p.stepK s > 0 ∨ p.stepL s > 0 ↔ 0 < s := by
  have hkl : p.stepK s > 0 ∨ p.stepL s > 0 ↔ 0 < s % p.steps := by
    have hsum := p.stepK_add_stepL s
    have hpos : 0 < s % p.steps * p.block ↔ 0 < s % p.steps :=
      Nat.mul_pos_iff_of_pos_right h.block_pos
    omega
  have hij : p.stepI s > 0 ∨ p.stepJ s > 0 ↔ 0 < s / p.steps := by
    rw [← h.accPopNext_iff s]
    simp
  rw [pos_iff_div_or_mod p.steps s, hkl, hij]

/-- Which weight loads pop a token. -/
lemma popAt_iff (s : ℕ) : p.popAt s = true ↔
    p.virtualThreads = 1 ∨ 0 < s ∧ s % p.steps + 1 ≠ p.virtualThreads := by
  rw [popAt]
  by_cases hvt : p.virtualThreads = 1
  · simp [pop, hvt]
  · have hne := h.mul_block_eq_iff (s % p.steps) p.virtualThreads
    rw [← stepK_add_stepL, Nat.mul_comm p.virtualThreads] at hne
    push_cast at hne
    simp only [pop, hvt, if_false, Bool.and_eq_true, Bool.or_eq_true, decide_eq_true_eq, false_or,
      ne_eq, hne, or_assoc, ← h.index_pos_iff s]

/-- Which GEMMs end a tile. -/
lemma pushNextAt_iff (s : ℕ) : p.pushNextAt s = true ↔ s % p.steps + 1 = p.steps := by
  have hlast := h.mul_block_eq_iff (s % p.steps) p.steps
  rw [← stepK_add_stepL, ← h.channels_eq] at hlast
  push_cast at hlast
  rw [pushNextAt, pushNext, decide_eq_true_eq, inFeat, hlast]

/-- Which GEMMs hand their buffers back to the load module. -/
lemma pushPrevAt_iff (s : ℕ) : p.pushPrevAt s = true ↔
    s % p.steps + p.virtualThreads ≠ p.steps ∧ s + 1 ≠ p.allSteps := by
  rw [pushPrevAt]
  have hlast := h.mul_block_eq_iff (s % p.steps) p.steps
  rw [← stepK_add_stepL, ← h.channels_eq] at hlast
  push_cast at hlast
  -- the last step of all is the last one in each of the three loops
  have hall : s + 1 = p.allSteps ↔ (s / p.steps / p.steps + 1 = p.batch / p.block ∧
      s / p.steps % p.steps + 1 = p.steps) ∧ s % p.steps + 1 = p.steps := by
    rw [allSteps, succ_eq_mul_iff h.steps_pos, tiles, succ_eq_mul_iff h.steps_pos]
  rcases h.threads with hvt | ⟨hvt, -⟩
  · simp only [pushPrev, hvt, if_true, decide_eq_true_eq, inFeat, ne_eq, hlast]
    exact ⟨fun hne => ⟨hne, fun hs => hne (hall.mp hs).2⟩, And.left⟩
  · have hpair := h.mul_block_eq_iff (s % p.steps + 1) p.steps
    rw [Nat.succ_mul, ← stepK_add_stepL, ← h.channels_eq] at hpair
    push_cast at hpair
    have hpair' : ((p.stepK s + p.stepL s : ℤ) = p.channels - 2 * p.block)
        ↔ s % p.steps + 2 = p.steps := by
      rw [← hpair]
      constructor <;> intro hk <;> omega
    have hj := h.mul_block_eq_iff (s / p.steps % p.steps) p.steps
    rw [← h.channels_eq, ← stepJ] at hj
    have hi := h.mul_block_eq_iff (s / p.steps / p.steps) (p.batch / p.block)
    rw [← h.batch_eq, ← stepI] at hi
    have hvt1 : ¬ (2 = 1) := by omega
    simp only [pushPrev, hvt, hvt1, if_false, decide_eq_true_eq, Bool.and_eq_true,
      Bool.or_eq_true, inFeat, outFeat, ne_eq, hall, hlast, hi, hj, Nat.cast_ofNat, hpair']
    grind

end Valid

end BlockedGemm

/-- A blocked GEMM with two virtual threads, two channel blocks and two output tiles. -/
def twoThreadGemm : BlockedGemm := ⟨16, 32, 16, true, 2⟩

lemma twoThreadGemm_valid : twoThreadGemm.Valid config16 where
  batch_pos := by decide
  channels_pos := by decide
  block_pos := by decide
  asserts := by constructor <;> decide
  threads := by decide

end ThreeLaSim
