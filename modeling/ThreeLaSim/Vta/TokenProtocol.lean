import ThreeLaSim.Vta.TileSchedule

/-!
# The dependence tokens of the generated streams

Every stream the three tests produce replays in list order from empty queues to empty queues.  By
the rules of token nets this carries over to every interleaving of the three modules.

* `Produced` — the streams of `alu_test`, `gemm_test` and `blocked_gemm_test`.
* `BlockedGemm.Valid.replay_stepBlock` — what one step of `blocked_gemm_test` does to the queues.
* `Produced.replay` — the sequential replay of any produced stream.
* **`deadlockFree_balanced`** — no interleaving blocks, no queue goes below zero, and a completed
  interleaving has fired everything once and left every queue empty.
-/

namespace ThreeLaSim

open TokenNet LoopNest

/-! ## Replaying one instruction -/

/-- Queue contents, written out. -/
def queues (l2g g2l g2s s2g : ℕ) : DepQueue → ℕ
  | .l2g => l2g
  | .g2l => g2l
  | .g2s => g2s
  | .s2g => s2g

section Rules

variable {i : Insn} (dep : DepFlags) (l2g g2l g2s s2g : ℕ) (hdep : i.dep = dep)
include hdep

/-- What the flags of an instruction do when the compute module runs it. -/
lemma replay_compute (hm : i.module = .compute) :
    vtaNet.Replay
      (queues (l2g + dep.popPrevDep.toNat) g2l g2s (s2g + dep.popNextDep.toNat))
      [i]
      (queues l2g (g2l + dep.pushPrevDep.toNat) (g2s + dep.pushNextDep.toNat) s2g) := by
  refine .single (fun q => ?_) fun q => ?_ <;>
    cases q <;> simp [vtaNet, queues, Insn.pops, Insn.pushes, hm, hdep]

/-- What the flags of an instruction do when the load module runs it. -/
lemma replay_load (hm : i.module = .load) :
    vtaNet.Replay (queues l2g (g2l + dep.popNextDep.toNat) g2s s2g) [i]
      (queues (l2g + dep.pushNextDep.toNat) g2l g2s s2g) := by
  refine .single (fun q => ?_) fun q => ?_ <;>
    cases q <;> simp [vtaNet, queues, Insn.pops, Insn.pushes, hm, hdep]

/-- What the flags of an instruction do when the store module runs it. -/
lemma replay_store (hm : i.module = .store) :
    vtaNet.Replay (queues l2g g2l (g2s + dep.popPrevDep.toNat) s2g) [i]
      (queues l2g g2l g2s (s2g + dep.pushPrevDep.toNat)) := by
  refine .single (fun q => ?_) fun q => ?_ <;>
    cases q <;> simp [vtaNet, queues, Insn.pops, Insn.pushes, hm, hdep]

end Rules

lemma queues_zero : queues 0 0 0 0 = fun _ => 0 := by
  funext q
  cases q <;> rfl

/-! ## `gemm_test` -/

/-- The stream of `gemm_test` replays to empty queues. -/
theorem GemmTest.replay (cfg : VtaConfig) (p : GemmTest) :
    vtaNet.Replay (queues 0 0 0 0) (p.insns cfg) (queues 0 0 0 0) := by
  refine .seq (replay_compute ⟨false, false, false, false⟩ 0 0 0 0 rfl rfl) ?_
  refine .seq (replay_compute ⟨false, false, true, false⟩ 0 0 0 0 rfl rfl) ?_
  refine .seq (replay_load ⟨false, true, false, false⟩ 0 0 0 0 rfl rfl) ?_
  refine .seq (replay_load ⟨false, false, false, true⟩ 0 0 0 0 rfl rfl) ?_
  refine .seq (replay_compute ⟨true, false, false, true⟩ 0 0 0 0 (getGEMMInsn_dep ..) rfl) ?_
  refine .seq (replay_store ⟨true, false, true, false⟩ 0 0 0 0 rfl rfl) ?_
  exact replay_compute ⟨false, true, false, false⟩ 0 0 0 0 rfl rfl

/-! ## `alu_test` -/

namespace AluTest

variable (cfg : VtaConfig) (p : AluTest)

/-- The queues at the start of batch block `b`: the store of the block before left its token. -/
def before (b : ℕ) : DepQueue → ℕ := queues 0 0 0 (decide (0 < b)).toNat

/-- One batch block. -/
lemma replay_block (b : ℕ) :
    vtaNet.Replay (before b)
      [.mem (p.loadInsn cfg (b * cfg.vtaBatch)), .alu (p.aluInsn cfg (b * cfg.vtaBatch)),
        .mem (p.storeInsn cfg (b * cfg.vtaBatch))]
      (before (b + 1)) := by
  have hpos : decide (b * cfg.vtaBatch > 0) = decide (0 < b) := by
    simp [cfg.vtaBatch_pos]
  have hload : (Insn.mem (p.loadInsn cfg (b * cfg.vtaBatch))).dep
      = ⟨false, decide (0 < b), false, false⟩ := by
    rw [← hpos]
    rfl
  have hnext : before (b + 1) = queues 0 0 0 1 := by
    simp [before]
  rw [hnext, before, ← Nat.zero_add (decide (0 < b)).toNat]
  refine .seq (replay_compute _ 0 0 0 0 hload rfl) ?_
  refine .seq (replay_compute ⟨false, false, false, true⟩ 0 0 0 0 (getALUInsn_dep ..) rfl) ?_
  exact replay_store ⟨true, false, true, false⟩ 0 0 0 0 rfl rfl

/-- The stream of `alu_test` replays to empty queues. -/
theorem replay (hbatch : 0 < p.batch) (h : p.Asserts cfg) :
    vtaNet.Replay (queues 0 0 0 0) (p.insns cfg) (queues 0 0 0 0) := by
  obtain ⟨n, hn⟩ := Nat.dvd_of_mod_eq_zero h.batch_mod
  have hpos : 0 < n := Nat.pos_of_ne_zero fun h0 => by simp [hn, h0] at hbatch
  have hloop : upTo p.batch cfg.vtaBatch = (List.range n).map (· * cfg.vtaBatch) := by
    rw [hn, Nat.mul_comm]
    exact upTo_mul cfg.vtaBatch_pos
  have hblocks := Net.Replay.flatMap_range _ before n fun b _ => replay_block cfg p b
  have hbefore : before n = queues 0 0 0 1 := by
    simp [before, hpos]
  rw [hbefore] at hblocks
  rw [insns, hloop, List.flatMap_map]
  refine (Net.Replay.append ?_ hblocks).append ?_
  · exact replay_compute ⟨false, false, false, false⟩ 0 0 0 0 rfl rfl
  · exact replay_compute ⟨false, true, false, false⟩ 0 0 0 0 rfl rfl

end AluTest

/-! ## `blocked_gemm_test` -/

/-- The accounting of `printInstruction`, for labelled instructions. -/
def labelledNet : Net Module DepQueue (GemmLabel × Insn) := vtaNet.comap Prod.snd

namespace BlockedGemm

variable (cfg : VtaConfig) (p : BlockedGemm)

lemma toNat_of_iff {b : Bool} {P : Prop} [Decidable P] (h : b = true ↔ P) :
    b.toNat = if P then 1 else 0 := by
  cases b <;> simp_all

/-- The tokens in `g2l` when step `s` starts: halves of the buffers the load module may refill. -/
def g2lBefore (s : ℕ) : ℕ :=
  if p.virtualThreads = 1 then (if s % p.steps = 0 then 0 else 1)
  else if s = 0 ∨ s = p.allSteps then 0
  else if s % p.steps = 0 then 1
  else min (s % p.steps) 2 - (if s % p.steps + 1 = p.steps then 1 else 0)

/-- The tokens in `g2l` once step `s` has taken its own. -/
def g2lMid (s : ℕ) : ℕ :=
  if p.virtualThreads = 1 then 0
  else if s % p.steps = 0 ∨ s % p.steps + 1 = p.steps then 0 else 1

/-- The queues when step `s` starts. -/
def beforeStep (s : ℕ) : DepQueue → ℕ :=
  queues 0 (p.g2lBefore s) 0 (decide (s % p.steps = 0 ∧ 0 < s)).toNat

/-- The queues before the weight load of step `s`. -/
def beforeWgt (s : ℕ) : DepQueue → ℕ := queues 0 (p.g2lMid s + (p.popAt s).toNat) 0 0

/-- The queues before the input load of step `s`. -/
def beforeInp (s : ℕ) : DepQueue → ℕ := queues 0 (p.g2lMid s) 0 0

/-- The queues before the GEMM of step `s`. -/
def beforeGemm (s : ℕ) : DepQueue → ℕ := queues 1 (p.g2lMid s) 0 0

/-- The queues after the GEMM of step `s`. -/
def afterGemm (s : ℕ) : DepQueue → ℕ :=
  queues 0 (p.g2lMid s + (p.pushPrevAt s).toNat) (p.pushNextAt s).toNat 0

lemma replay_wgt (s : ℕ) :
    labelledNet.Replay (p.beforeWgt s) [p.wgtAt cfg s] (p.beforeInp s) :=
  .comap (replay_load ⟨false, p.popAt s, false, false⟩ 0 (p.g2lMid s) 0 0 rfl rfl)

lemma replay_inp (s : ℕ) :
    labelledNet.Replay (p.beforeInp s) [p.inpAt cfg s] (p.beforeGemm s) :=
  .comap (replay_load ⟨false, false, false, true⟩ 0 (p.g2lMid s) 0 0 rfl rfl)

lemma replay_gemm (s : ℕ) :
    labelledNet.Replay (p.beforeGemm s) [p.gemmAt cfg s] (p.afterGemm s) := by
  have h := replay_compute (i := (p.gemmAt cfg s).2)
    ⟨true, false, p.pushPrevAt s, p.pushNextAt s⟩ 0 (p.g2lMid s) 0 0 (getGEMMInsn_dep ..) rfl
  simp only [Nat.zero_add] at h
  exact .comap h

namespace Valid

variable {cfg} {p} (h : p.Valid cfg)
include h

/-- What the bias load and the weight load of a step do to `g2l`. -/
lemma g2lBefore_eq (s : ℕ) (hs : s < p.allSteps) :
    p.g2lBefore s + (decide (s % p.steps = 0 ∧ p.virtualThreads = 1)).toNat
      = p.g2lMid s + (p.popAt s).toNat := by
  have hmod := Nat.mod_lt s h.steps_pos
  have hfirst : s = 0 → s % p.steps = 0 := fun h0 => by rw [h0, Nat.zero_mod]
  rw [toNat_of_iff (h.popAt_iff s), toNat_of_iff (decide_eq_true_iff), g2lBefore, g2lMid]
  rcases h.threads with hvt | ⟨hvt, -⟩
  · rw [if_pos hvt, if_pos hvt]
    split_ifs <;> omega
  · have hvt' : p.virtualThreads ≠ 1 := by omega
    rw [if_neg hvt', if_neg hvt']
    split_ifs <;> omega

/-- What the GEMM of a step does to `g2l`. -/
lemma g2lBefore_succ (s : ℕ) (hs : s < p.allSteps) :
    p.g2lBefore (s + 1) = p.g2lMid s + (p.pushPrevAt s).toNat := by
  have hmod := Nat.mod_lt s h.steps_pos
  have hlast : s + 1 = p.allSteps → s % p.steps + 1 = p.steps := fun hS =>
    ((succ_eq_mul_iff h.steps_pos s p.tiles).mp hS).2
  rw [toNat_of_iff (h.pushPrevAt_iff s), g2lBefore, g2lMid, succ_mod h.steps_pos]
  rcases h.threads with hvt | ⟨hvt, -⟩
  · rw [if_pos hvt, if_pos hvt]
    split_ifs <;> omega
  · have hvt' : p.virtualThreads ≠ 1 := by omega
    rw [if_neg hvt', if_neg hvt']
    grind

/-- The bias load of a tile's first step. -/
lemma replay_headAt {s : ℕ} (hs : s < p.allSteps) :
    labelledNet.Replay (p.beforeStep s) (p.headAt cfg s) (p.beforeWgt s) := by
  have hg2l := h.g2lBefore_eq s hs
  by_cases ht : s % p.steps = 0
  · have hpop : decide (s % p.steps = 0 ∧ 0 < s)
        = (decide (p.stepI s > 0) || decide (p.stepJ s > 0)) := by
      rw [Bool.eq_iff_iff, h.accPopNext_iff s, decide_eq_true_eq, pos_iff_div_or_mod p.steps s]
      omega
    have hrule := replay_compute (i := (p.accAt cfg s).2)
      ⟨false, decide (p.stepI s > 0) || decide (p.stepJ s > 0), decide (p.virtualThreads = 1),
        false⟩ 0 (p.g2lBefore s) 0 0 rfl rfl
    simp only [ht, true_and] at hg2l
    simp only [Nat.zero_add, hg2l, ← hpop] at hrule
    rw [headAt, if_pos ht]
    exact .comap hrule
  · simp only [ht, false_and, decide_false, Bool.toNat_false, Nat.add_zero] at hg2l
    rw [headAt, if_neg ht, beforeStep, beforeWgt, hg2l]
    simp only [ht, false_and, decide_false, Bool.toNat_false]
    exact .nil _

/-- The store of a tile's last step. -/
lemma replay_lastAt {s : ℕ} (hs : s < p.allSteps) :
    labelledNet.Replay (p.afterGemm s) (p.lastAt cfg s) (p.beforeStep (s + 1)) := by
  have hnext : decide ((s + 1) % p.steps = 0 ∧ 0 < s + 1) = p.pushNextAt s := by
    rw [Bool.eq_iff_iff, h.pushNextAt_iff, decide_eq_true_eq, succ_mod h.steps_pos]
    grind
  rw [beforeStep, hnext, h.g2lBefore_succ s hs]
  by_cases ht : s % p.steps + 1 = p.steps
  · have hflag : p.pushNextAt s = true := (h.pushNextAt_iff s).mpr ht
    rw [lastAt, if_pos ht, afterGemm, hflag]
    exact .comap (replay_store ⟨true, false, true, false⟩ 0 _ 0 0 rfl rfl)
  · have hflag : p.pushNextAt s = false := by
      rw [← Bool.not_eq_true, h.pushNextAt_iff]
      exact ht
    rw [lastAt, if_neg ht, afterGemm, hflag]
    exact .nil _

/-- **What one step of `blocked_gemm_test` does to the queues.** -/
theorem replay_stepBlock {s : ℕ} (hs : s < p.allSteps) :
    labelledNet.Replay (p.beforeStep s) (p.stepBlock cfg s) (p.beforeStep (s + 1)) :=
  ((h.replay_headAt hs).append
    (.seq (p.replay_wgt cfg s) (.seq (p.replay_inp cfg s) (p.replay_gemm cfg s)))).append
    (h.replay_lastAt hs)

/-- The stream up to step `s`. -/
lemma replay_stepPrefix {s : ℕ} (hs : s ≤ p.allSteps) :
    labelledNet.Replay (fun _ => 0)
      ([(.uop, .mem (p.uopInsn cfg))] ++ (List.range s).flatMap (p.stepBlock cfg))
      (p.beforeStep s) := by
  have huop := replay_compute (i := .mem (p.uopInsn cfg)) ⟨false, false, false, false⟩
    0 0 0 0 rfl rfl
  have hzero : p.beforeStep 0 = queues 0 0 0 0 := by
    simp [beforeStep, g2lBefore]
  have hsteps := Net.Replay.flatMap_range (p.stepBlock cfg) p.beforeStep s fun s' hs' =>
    h.replay_stepBlock (s := s') (by omega)
  rw [← queues_zero]
  rw [hzero] at hsteps
  exact Net.Replay.append (.comap huop) hsteps

/-- The stream of `blocked_gemm_test` replays to empty queues. -/
theorem replay_labelled : labelledNet.Replay (fun _ => 0) (p.labelled cfg) (fun _ => 0) := by
  have hend : p.beforeStep p.allSteps = queues 0 0 0 1 := by
    have hpos : 0 < p.allSteps :=
      Nat.mul_pos (Nat.mul_pos h.batchBlocks_pos h.steps_pos) h.steps_pos
    have hmod : p.allSteps % p.steps = 0 := Nat.mul_mod_left p.tiles p.steps
    simp [beforeStep, g2lBefore, hpos, hmod]
  rw [h.labelled_eq]
  refine (h.replay_stepPrefix le_rfl).append ?_
  rw [hend, ← queues_zero]
  exact .comap (replay_compute ⟨false, true, false, false⟩ 0 0 0 0 rfl rfl)

end Valid

end BlockedGemm

/-! ## Every interleaving of every produced stream -/

/-- The instruction streams the three tests produce. -/
inductive Produced (cfg : VtaConfig) : List Insn → Prop
  | alu (p : AluTest) (batch_pos : 0 < p.batch) (vectorSize_pos : 0 < p.vectorSize)
      (asserts : p.Asserts cfg) : Produced cfg (p.insns cfg)
  | gemm (p : GemmTest) (batch_pos : 0 < p.batch) (inChannels_pos : 0 < p.inChannels)
      (outChannels_pos : 0 < p.outChannels) (asserts : p.Asserts cfg) : Produced cfg (p.insns cfg)
  | blocked (p : BlockedGemm) (valid : p.Valid cfg) : Produced cfg (p.insns cfg)

/-- A produced stream replays in list order from empty queues to empty queues. -/
theorem Produced.replay {cfg : VtaConfig} {prog : List Insn} (h : Produced cfg prog) :
    vtaNet.Replay (fun _ => 0) prog (fun _ => 0) := by
  cases h with
  | alu p batch_pos vectorSize_pos asserts =>
      rw [← queues_zero]
      exact p.replay cfg batch_pos asserts
  | gemm p batch_pos inChannels_pos outChannels_pos asserts =>
      rw [← queues_zero]
      exact p.replay cfg
  | blocked p valid => exact .map valid.replay_labelled

/-- What `printInstruction` would count after the instructions fired so far. -/
lemma queueAccount_eq_queue {prog t : List Insn} {s : State Module DepQueue}
    (hrun : vtaNet.Run prog t s) (q : DepQueue) : (queueAccount t).get q = s.queue q := by
  have hcons : s.queue q + tokens Insn.pops q t = tokens Insn.pushes q t := hrun.queue_add_pops q
  rw [queueAccount_get]
  omega

/-- **The token protocol is free of deadlock and balanced.**  In every interleaving of a produced
stream some module can fire its next instruction until all have finished; the counters of
`printInstruction` are at no time negative; and at completion every instruction has fired exactly
once and all four queues are empty. -/
theorem deadlockFree_balanced {cfg : VtaConfig} {prog t : List Insn} {s : State Module DepQueue}
    (h : Produced cfg prog) (hrun : vtaNet.Run prog t s) :
    (¬ vtaNet.Complete prog s →
      ∃ m i, vtaNet.next prog s m = some i ∧ vtaNet.Enabled s i) ∧
    (∀ q, (queueAccount t).get q = s.queue q ∧ 0 ≤ (queueAccount t).get q) ∧
    t.length ≤ prog.length ∧
    (vtaNet.Complete prog s → t.Perm prog ∧ ∀ q, s.queue q = 0) := by
  refine ⟨hrun.exists_enabled h.replay, fun q => ?_, hrun.length_le, fun hc => ?_⟩
  · have hq := queueAccount_eq_queue hrun q
    exact ⟨hq, by omega⟩
  · exact ⟨hrun.perm_of_complete hc, fun q => by rw [hrun.queue_eq_of_complete h.replay hc]⟩

/-- A run of two threads: the operands of both are loaded ahead, and the GEMM of the first is done. -/
theorem deadlockFree_balanced_twoThread :
    ∃ t s, vtaNet.Run (twoThreadGemm.insns config16) t s ∧ t.length = 7 ∧
      .gem (twoThreadGemm.gemmInsn config16 0 0 0 0) ∈ t ∧ s.queue .l2g = 1 ∧
      ∃ m i, vtaNet.next (twoThreadGemm.insns config16) s m = some i ∧ vtaNet.Enabled s i := by
  have step := fun {t s} (hrun : vtaNet.Run (twoThreadGemm.insns config16) t s) (m : Module) i
    (hnext : vtaNet.next (twoThreadGemm.insns config16) s m = some i)
    (hpops : ∀ q ∈ [DepQueue.l2g, .g2l, .g2s, .s2g], vtaNet.pops i q ≤ s.queue q) =>
      Net.Run.snoc hrun hnext fun q => hpops q (by cases q <;> simp)
  have huop := step .nil .compute (.mem (twoThreadGemm.uopInsn config16)) rfl (by decide)
  have hwgt := step huop .load (.mem (twoThreadGemm.wgtInsn config16 0 0 0 0)) rfl (by decide)
  have hinp := step hwgt .load (.mem (twoThreadGemm.inpInsn config16 0 0 0)) rfl (by decide)
  have hwgt' := step hinp .load (.mem (twoThreadGemm.wgtInsn config16 0 0 0 16)) rfl (by decide)
  have hinp' := step hwgt' .load (.mem (twoThreadGemm.inpInsn config16 0 0 16)) rfl (by decide)
  have hacc := step hinp' .compute (.mem (twoThreadGemm.accInsn config16 0 0)) rfl (by decide)
  have hgemm := step hacc .compute (.gem (twoThreadGemm.gemmInsn config16 0 0 0 0)) rfl (by decide)
  refine ⟨_, _, hgemm, rfl, by simp, by decide, ?_⟩
  refine (deadlockFree_balanced (.blocked twoThreadGemm twoThreadGemm_valid) hgemm).1 fun hc => ?_
  exact absurd (hc .store) (by decide)

end ThreeLaSim
