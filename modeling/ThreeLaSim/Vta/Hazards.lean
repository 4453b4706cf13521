import Mathlib.Data.List.Nodup
import Mathlib.Data.Set.Lattice
import Mathlib.Order.CompletePartialOrder
import ThreeLaSim.Vta.TokenProtocol

/-!
# No SRAM data hazard in `blocked_gemm_test`

What the dependence tokens are for.  A GEMM reads the weight and input regions its own step loaded,
and a store writes out exactly the accumulation of its own tile, in every interleaving of the load,
compute and store modules.

* `stepOf` — the step an instruction belongs to; the labels of a stream are distinct.
* `load_before_gemm`, `load_after_gemm` — what the load module has fired when a GEMM fires: all
  loads up to its step, and none of the step that will reuse its half of the buffers.
* `compute_eq_of_store` — what the compute module has fired when a store fires.
* **`hazards_excluded`** — the two together.
-/

namespace ThreeLaSim

open TokenNet LoopNest

/-! ## What an instruction writes -/

/-- Loads into on-chip memory `mem`. -/
def Insn.loads (mem : MemId) : Insn → Bool
  | .mem m => decide (m.opcode = .load) && decide (m.memoryType = mem)
  | _ => false

/-- GEMM instructions. -/
def Insn.isGemm : Insn → Bool
  | .gem g => decide (g.opcode = .gemm)
  | _ => false

/-- The SRAM slots a memory instruction moves. -/
def Insn.slots : Insn → Set ℕ
  | .mem m => {a | m.sramBase ≤ a ∧ a < m.sramBase + m.ySize * m.xSize}
  | _ => ∅

/-- In the trace `t`, the last load into the region of `mem` that `w` writes is `w` itself. -/
def LastLoad (mem : MemId) (w : GemmLabel × Insn) (t : List (GemmLabel × Insn)) : Prop :=
  ∃ t₁ t₂, t = t₁ ++ w :: t₂ ∧ ∀ y ∈ t₂, y.2.loads mem → Disjoint w.2.slots y.2.slots

/-- Regions of one size at different multiples of it. -/
lemma disjoint_regions {e e' z : ℕ} (hne : e ≠ e') :
    Disjoint {a | e * z ≤ a ∧ a < e * z + z} {a | e' * z ≤ a ∧ a < e' * z + z} := by
  refine Set.disjoint_left.mpr fun a ⟨h₁, h₂⟩ ⟨h₃, h₄⟩ => ?_
  rcases Nat.lt_or_gt_of_ne hne with hlt | hlt
  · have := Nat.mul_le_mul_right z (Nat.succ_le_of_lt hlt)
    rw [Nat.succ_mul] at this
    omega
  · have := Nat.mul_le_mul_right z (Nat.succ_le_of_lt hlt)
    rw [Nat.succ_mul] at this
    omega

/-- The module that loads into a memory. -/
def MemId.loader : MemId → Module
  | .inp | .wgt => .load
  | .uop | .acc | .out => .compute

lemma owner_of_loads {mem : MemId} {x : GemmLabel × Insn} (h : x.2.loads mem) :
    labelledNet.owner x = mem.loader := by
  obtain ⟨l, m | g | a⟩ := x
  · obtain ⟨hop, hmem⟩ : m.opcode = .load ∧ m.memoryType = mem := by simpa [Insn.loads] using h
    show (Insn.mem m).module = mem.loader
    rw [Insn.module, hop, hmem]
    cases mem <;> rfl
  · simp [Insn.loads] at h
  · simp [Insn.loads] at h

lemma owner_of_isGemm {x : GemmLabel × Insn} (h : x.2.isGemm) :
    labelledNet.owner x = .compute := by
  obtain ⟨l, m | g | a⟩ := x <;> simp_all [Insn.isGemm, labelledNet, Net.comap, vtaNet, Insn.module]

lemma filter_isGemm_own (t : List (GemmLabel × Insn)) :
    (labelledNet.own .compute t).filter (fun y => y.2.isGemm) = t.filter fun y => y.2.isGemm := by
  rw [Net.own, List.filter_filter]
  refine List.filter_congr fun y _ => ?_
  cases hy : y.2.isGemm with
  | false => rfl
  | true => simp [owner_of_isGemm hy]

/-- The last load, read off the load module's share of the trace. -/
lemma lastLoad_of_own {mem : MemId} {w : GemmLabel × Insn} {t l l' : List (GemmLabel × Insn)}
    (hmem : mem.loader = .load)
    (hown : labelledNet.own .load t = l ++ w :: l')
    (hafter : ∀ y ∈ l', y.2.loads mem → Disjoint w.2.slots y.2.slots) : LastLoad mem w t := by
  obtain ⟨t₁, t₂, rfl, ht₂⟩ := Net.exists_split_of_own hown
  refine ⟨t₁, t₂, rfl, fun y hy hload => hafter y ?_ hload⟩
  rw [← ht₂]
  exact Net.mem_own.mpr ⟨hy, (owner_of_loads hload).trans hmem⟩

namespace BlockedGemm

variable (cfg : VtaConfig) (p : BlockedGemm)

/-! ## Positions in the stream -/

/-- The stream before step `s`. -/
def stepPrefix (s : ℕ) : List (GemmLabel × Insn) :=
  [(.uop, .mem (p.uopInsn cfg))] ++ (List.range s).flatMap (p.stepBlock cfg)

/-- The end of the stream. -/
def finish : GemmLabel × Insn := (.finish, .gem (getFinishInsn false true))

/-- The tile loop turn a label names, counted over all tiles. -/
def tileOf (i j : ℕ) : ℕ := i / p.block * p.steps + j / p.block

/-- The step a label names. -/
def stepOf : GemmLabel → ℕ
  | .uop => 0
  | .acc i j => p.tileOf i j * p.steps
  | .wgt i j kl => p.tileOf i j * p.steps + kl / p.block
  | .inp i j kl => p.tileOf i j * p.steps + kl / p.block
  | .gemm i j kl => p.tileOf i j * p.steps + kl / p.block
  | .store i j => p.tileOf i j * p.steps + (p.steps - 1)
  | .finish => 0

lemma stepPrefix_succ (s : ℕ) :
    p.stepPrefix cfg (s + 1) = p.stepPrefix cfg s ++ p.stepBlock cfg s := by
  simp [stepPrefix, List.range_succ]

/-- The labels are no part of the behaviour: every interleaving of the stream is one of the
labelled stream with the labels dropped. -/
theorem exists_labelled_run {t : List Insn} {s : State Module DepQueue}
    (hrun : vtaNet.Run (p.insns cfg) t s) :
    ∃ u, u.map Prod.snd = t ∧ labelledNet.Run (p.labelled cfg) u s :=
  hrun.exists_map_eq

/-- The instructions of a step. -/
lemma mem_stepBlock {s : ℕ} {x : GemmLabel × Insn} : x ∈ p.stepBlock cfg s ↔
    (s % p.steps = 0 ∧ x = p.accAt cfg s) ∨ x = p.wgtAt cfg s ∨ x = p.inpAt cfg s ∨
      x = p.gemmAt cfg s ∨ (s % p.steps + 1 = p.steps ∧ x = p.storeAt cfg s) := by
  simp only [stepBlock, headAt, lastAt, List.mem_append, List.mem_cons, List.not_mem_nil, or_false]
  split_ifs <;> grind

/-- The stream before the GEMM of step `s`. -/
def gemmPrefix (s : ℕ) : List (GemmLabel × Insn) :=
  p.stepPrefix cfg s ++ p.headAt cfg s ++ [p.wgtAt cfg s, p.inpAt cfg s]

lemma stepPrefix_succ_eq_gemmPrefix (s : ℕ) :
    p.stepPrefix cfg (s + 1) = p.gemmPrefix cfg s ++ p.gemmAt cfg s :: p.lastAt cfg s := by
  simp [stepPrefix_succ, stepBlock, gemmPrefix]

lemma stepPrefix_prefix {a b : ℕ} (hab : a ≤ b) : p.stepPrefix cfg a <+: p.stepPrefix cfg b := by
  induction b, hab using Nat.le_induction with
  | base => exact List.prefix_rfl
  | succ b _ ih =>
      rw [stepPrefix_succ]
      exact ih.trans (List.prefix_append _ _)

/-- The bias loads before step `k`. -/
lemma acc_mem_stepPrefix {x : GemmLabel × Insn} {i j k : ℕ} (hx : x ∈ p.stepPrefix cfg k)
    (hl : x.1 = .acc i j) : ∃ k' < k, i = p.stepI k' ∧ j = p.stepJ k' := by
  simp only [stepPrefix, List.mem_append, List.mem_singleton, List.mem_flatMap,
    List.mem_range] at hx
  rcases hx with rfl | ⟨k', hk', hx⟩
  · simp at hl
  · refine ⟨k', hk', ?_⟩
    rcases (p.mem_stepBlock cfg).mp hx with ⟨-, rfl⟩ | rfl | rfl | rfl | ⟨-, rfl⟩ <;>
      simp only [accAt, wgtAt, inpAt, gemmAt, storeAt, GemmLabel.acc.injEq, reduceCtorEq] at hl
    exact ⟨hl.1.symm, hl.2.symm⟩

/-! ### The modules' shares -/

lemma own_load_headAt (s : ℕ) : labelledNet.own .load (p.headAt cfg s) = [] := by
  rw [headAt]
  split_ifs <;> rfl

lemma own_load_stepBlock (s : ℕ) :
    labelledNet.own .load (p.stepBlock cfg s) = [p.wgtAt cfg s, p.inpAt cfg s] := by
  rw [stepBlock, headAt, lastAt]
  split_ifs <;> rfl

lemma own_compute_stepBlock (s : ℕ) :
    labelledNet.own .compute (p.stepBlock cfg s) = p.headAt cfg s ++ [p.gemmAt cfg s] := by
  rw [stepBlock, headAt, lastAt]
  have hgemm : labelledNet.owner (p.gemmAt cfg s) = .compute := rfl
  split_ifs <;> rfl

/-- The compute module's share of the first steps of a tile. -/
lemma own_compute_tile {a : ℕ} (ha : a % p.steps = 0) :
    ∀ j, j < p.steps → labelledNet.own .compute (p.stepPrefix cfg (a + (j + 1)))
      = labelledNet.own .compute (p.stepPrefix cfg a) ++
        p.accAt cfg a :: (List.range (j + 1)).map fun j => p.gemmAt cfg (a + j)
  | 0, _ => by
      rw [stepPrefix_succ, Net.own_append, own_compute_stepBlock, headAt, if_pos ha]
      simp
  | j + 1, hj => by
      have hmod : (a + (j + 1)) % p.steps ≠ 0 := by
        rw [Nat.add_mod, ha, Nat.zero_add, Nat.mod_mod, Nat.mod_eq_of_lt hj]
        omega
      rw [← Nat.add_assoc, stepPrefix_succ, Net.own_append, own_compute_tile ha j (by omega),
        own_compute_stepBlock, headAt, if_neg hmod, @List.range_succ (j + 1)]
      simp

/-! ### The tokens a stretch of the stream takes -/

lemma tokens_g2l_headAt (s : ℕ) : tokens labelledNet.pops .g2l (p.headAt cfg s) = 0 := by
  rw [headAt]
  split_ifs <;> rfl

lemma tokens_g2l_lastAt (s : ℕ) : tokens labelledNet.pops .g2l (p.lastAt cfg s) = 0 := by
  rw [lastAt]
  split_ifs <;> rfl

lemma pops_g2l_wgtAt (s : ℕ) : labelledNet.pops (p.wgtAt cfg s) .g2l = (p.popAt s).toNat := rfl

lemma pops_l2g_gemmAt (s : ℕ) : labelledNet.pops (p.gemmAt cfg s) .l2g = 1 := by
  show (getGEMMInsn ..).dep.popPrevDep.toNat = 1
  rw [getGEMMInsn_dep]
  rfl

lemma tokens_g2l_stepBlock (s : ℕ) :
    tokens labelledNet.pops .g2l (p.stepBlock cfg s) = (p.popAt s).toNat := by
  have hinp : labelledNet.pops (p.inpAt cfg s) .g2l = 0 := rfl
  have hgemm : labelledNet.pops (p.gemmAt cfg s) .g2l = 0 := rfl
  simp [stepBlock, tokens_g2l_headAt, tokens_g2l_lastAt, pops_g2l_wgtAt, hinp, hgemm]

namespace Valid

variable {cfg} {p} (h : p.Valid cfg)
include h

lemma labelled_eq_stepPrefix : p.labelled cfg = p.stepPrefix cfg p.allSteps ++ [finish] :=
  h.labelled_eq

/-- The tile of step `s`. -/
lemma tileOf_step (s : ℕ) : p.tileOf (p.stepI s) (p.stepJ s) = s / p.steps := by
  rw [tileOf, stepI, stepJ, Nat.mul_div_cancel _ h.block_pos, Nat.mul_div_cancel _ h.block_pos,
    Nat.div_add_mod']

/-- Every instruction of step `s` is labelled with it. -/
lemma stepOf_mem {s : ℕ} {x : GemmLabel × Insn} (hx : x ∈ p.stepBlock cfg s) :
    p.stepOf x.1 = s := by
  have hdiv := Nat.div_add_mod' s p.steps
  have hkl : (p.stepK s + p.stepL s) / p.block = s % p.steps := by
    rw [stepK_add_stepL, Nat.mul_div_cancel _ h.block_pos]
  rcases (p.mem_stepBlock cfg).mp hx with ⟨ht, rfl⟩ | rfl | rfl | rfl | ⟨ht, rfl⟩ <;>
    simp only [accAt, wgtAt, inpAt, gemmAt, storeAt, stepOf, h.tileOf_step, hkl] <;> omega

/-- **No instruction occurs twice** in the stream. -/
theorem nodup_labelled : (p.labelled cfg).Nodup := by
  have hblock : ∀ s, (p.stepBlock cfg s).Nodup := by
    intro s
    refine List.Nodup.of_map Prod.fst ?_
    rw [stepBlock, headAt, lastAt]
    split_ifs <;> simp [accAt, wgtAt, inpAt, gemmAt, storeAt]
  have hlabel : ∀ s, ∀ x ∈ p.stepBlock cfg s, x.1 ≠ .uop ∧ x.1 ≠ .finish := by
    intro s x hx
    rcases (p.mem_stepBlock cfg).mp hx with ⟨-, rfl⟩ | rfl | rfl | rfl | ⟨-, rfl⟩ <;>
      simp [accAt, wgtAt, inpAt, gemmAt, storeAt]
  rw [h.labelled_eq, List.nodup_append, List.nodup_append, List.nodup_flatMap]
  refine ⟨⟨List.nodup_singleton _, ⟨fun s _ => hblock s, ?_⟩, ?_⟩, List.nodup_singleton _, ?_⟩
  · refine List.Pairwise.imp (fun {s s'} hne x hx hx' => hne ?_) List.nodup_range
    rw [← h.stepOf_mem hx, h.stepOf_mem hx']
  · simp only [List.mem_singleton, List.mem_flatMap]
    rintro a rfl b ⟨s, -, hs⟩ rfl
    exact (hlabel s _ hs).1 rfl
  · simp only [List.mem_append, List.mem_singleton, List.mem_flatMap]
    rintro a (rfl | ⟨s, -, hs⟩) b rfl hab
    · simp at hab
    · exact (hlabel s _ hs).2 (by rw [hab])

lemma stepPrefix_prefix_labelled {s : ℕ} (hs : s ≤ p.allSteps) :
    p.stepPrefix cfg s <+: p.labelled cfg := by
  rw [h.labelled_eq_stepPrefix]
  exact (p.stepPrefix_prefix cfg hs).trans (List.prefix_append _ _)

/-- Where the GEMM of step `k` stands. -/
lemma exists_eq_gemmPrefix {k : ℕ} (hk : k < p.allSteps) :
    ∃ post, p.labelled cfg = p.gemmPrefix cfg k ++ p.gemmAt cfg k :: p.lastAt cfg k ++ post := by
  obtain ⟨post, hpost⟩ := h.stepPrefix_prefix_labelled (s := k + 1) hk
  exact ⟨post, by rw [← hpost, stepPrefix_succ_eq_gemmPrefix]⟩

/-- Where the store behind the last GEMM of a tile stands. -/
lemma exists_eq_storePrefix {k : ℕ} (hk : k < p.allSteps) (hlast : k % p.steps + 1 = p.steps) :
    ∃ post, p.labelled cfg =
      (p.gemmPrefix cfg k ++ [p.gemmAt cfg k]) ++ p.storeAt cfg k :: post := by
  obtain ⟨post, hpost⟩ := h.exists_eq_gemmPrefix hk
  rw [lastAt, if_pos hlast] at hpost
  exact ⟨post, by simpa using hpost⟩

/-- The replay up to the GEMM of step `k`. -/
lemma replay_gemmPrefix {k : ℕ} (hk : k < p.allSteps) :
    labelledNet.Replay (fun _ => 0) (p.gemmPrefix cfg k) (p.beforeGemm k) :=
  ((h.replay_stepPrefix hk.le).append (h.replay_headAt hk)).append
    (.seq (p.replay_wgt cfg k) (p.replay_inp cfg k))

/-! ## What has been loaded when a GEMM fires -/

/-- The loads from step `k + 1` to the one that reuses the buffers of step `k` take more tokens
than there are when the GEMM of step `k` is due. -/
lemma g2lMid_lt (k : ℕ) : p.virtualThreads = 1 ∧ p.g2lMid k < (p.popAt (k + 1)).toNat ∨
    p.virtualThreads = 2 ∧ p.g2lMid k < (p.popAt (k + 1)).toNat + (p.popAt (k + 2)).toNat := by
  have hmod := Nat.mod_lt k h.steps_pos
  have hle := Nat.le_of_dvd h.steps_pos h.threads_dvd
  rw [toNat_of_iff (h.popAt_iff _), toNat_of_iff (h.popAt_iff _), g2lMid,
    succ_mod h.steps_pos (k + 1), succ_mod h.steps_pos]
  rcases h.threads with hvt | ⟨hvt, -⟩
  · exact .inl ⟨hvt, by grind⟩
  · exact .inr ⟨hvt, by grind⟩

/-- The stretch from the GEMM of step `k` to the weight load that reuses its buffers takes more tokens
than there are. -/
lemma exists_reuse (k : ℕ) : ∃ c, p.gemmPrefix cfg k ++ c
      = p.stepPrefix cfg (k + p.virtualThreads) ++ p.headAt cfg (k + p.virtualThreads) ∧
    p.g2lMid k < tokens labelledNet.pops .g2l (c ++ [p.wgtAt cfg (k + p.virtualThreads)]) := by
  have hgemm : labelledNet.pops (p.gemmAt cfg k) .g2l = 0 := rfl
  rcases h.g2lMid_lt k with ⟨hvt, hlt⟩ | ⟨hvt, hlt⟩
  · refine ⟨p.gemmAt cfg k :: p.lastAt cfg k ++ p.headAt cfg (k + 1), ?_, ?_⟩
    · rw [hvt, stepPrefix_succ_eq_gemmPrefix, List.append_assoc]
    · simpa [hvt, hgemm, tokens_g2l_lastAt, tokens_g2l_headAt, pops_g2l_wgtAt] using hlt
  · refine ⟨p.gemmAt cfg k :: p.lastAt cfg k ++ p.stepBlock cfg (k + 1) ++ p.headAt cfg (k + 2),
      ?_, ?_⟩
    · rw [hvt, ← Nat.add_assoc k 1 1, stepPrefix_succ _ _ (k + 1), stepPrefix_succ_eq_gemmPrefix]
      simp
    · simpa [hvt, hgemm, tokens_g2l_lastAt, tokens_g2l_headAt, tokens_g2l_stepBlock,
        pops_g2l_wgtAt] using hlt

section Gemm

variable {k : ℕ} (hk : k < p.allSteps) {t : List (GemmLabel × Insn)} {s : State Module DepQueue}
  (hrun : labelledNet.Run (p.labelled cfg) (t ++ [p.gemmAt cfg k]) s)
include hk hrun

/-- All loads up to those of step `k` have fired. -/
lemma load_before_gemm :
    labelledNet.own .load (p.stepPrefix cfg (k + 1)) <+: labelledNet.own .load t := by
  obtain ⟨post, hprog⟩ := h.exists_eq_gemmPrefix hk
  rw [List.append_assoc, List.cons_append] at hprog
  have hb : labelledNet.Replay (fun _ => 0)
      (p.stepPrefix cfg k ++ p.headAt cfg k ++ [p.wgtAt cfg k]) (p.beforeInp k) :=
    ((h.replay_stepPrefix hk.le).append (h.replay_headAt hk)).append (p.replay_wgt cfg k)
  have hpre : p.gemmPrefix cfg k
      = (p.stepPrefix cfg k ++ p.headAt cfg k ++ [p.wgtAt cfg k]) ++ p.inpAt cfg k :: [] := by
    simp [gemmPrefix]
  have hpops : p.beforeInp k .l2g
      < tokens labelledNet.pops .l2g (p.inpAt cfg k :: [] ++ [p.gemmAt cfg k]) := by
    have hbefore : p.beforeInp k .l2g = 0 := rfl
    simp [hbefore, pops_l2g_gemmAt]
  have hfired := hrun.own_prefix_of_last hprog h.nodup_labelled hpre hb rfl rfl
    (fun hne => nomatch hne) hpops
  have hown : labelledNet.own .load (p.stepPrefix cfg (k + 1)) = labelledNet.own .load
      ((p.stepPrefix cfg k ++ p.headAt cfg k ++ [p.wgtAt cfg k]) ++ [p.inpAt cfg k]) := by
    rw [stepPrefix_succ, Net.own_append, own_load_stepBlock, Net.own_append, Net.own_append,
      Net.own_append, own_load_headAt]
    simp [Net.own]
    rfl
  rw [hown]
  exact hfired

/-- The loads that reuse the buffers of step `k` have not fired. -/
lemma load_after_gemm :
    labelledNet.own .load t <+: labelledNet.own .load (p.stepPrefix cfg (k + p.virtualThreads)) := by
  obtain ⟨post, hprog⟩ := h.exists_eq_gemmPrefix hk
  rw [List.append_assoc, List.cons_append] at hprog
  by_cases hreuse : p.allSteps ≤ k + p.virtualThreads
  · -- nobody reuses them: the stream ends before
    obtain ⟨s₀, run, -, -, -⟩ := hrun.snoc_inv
    have hall : labelledNet.own .load (p.labelled cfg) = labelledNet.own .load
        (p.stepPrefix cfg p.allSteps) := by
      rw [h.labelled_eq_stepPrefix, Net.own_append]
      exact List.append_nil _
    rw [run.own_trace, hall]
    exact (List.take_prefix _ _).trans (Net.own_mono _ (p.stepPrefix_prefix cfg hreuse))
  · rw [Nat.not_le] at hreuse
    obtain ⟨c, hc, hpops⟩ := h.exists_reuse k
    have hreach : p.gemmPrefix cfg k ++ (c ++ [p.wgtAt cfg (k + p.virtualThreads)])
        <+: p.labelled cfg := by
      refine List.IsPrefix.trans ?_ (h.stepPrefix_prefix_labelled (s := k + p.virtualThreads + 1)
        hreuse)
      rw [← List.append_assoc, hc, stepPrefix_succ, stepBlock]
      simp
    have hfired := hrun.own_trace_prefix_of_last hprog h.nodup_labelled (q := .g2l) hreach
      (h.replay_gemmPrefix hk) rfl rfl hpops
    refine hfired.trans ?_
    show labelledNet.own .load (p.gemmPrefix cfg k ++ c) <+: _
    rw [hc, Net.own_append, own_load_headAt, List.append_nil]

end Gemm

/-! ## What has been computed when a store fires -/

section Store

variable {k : ℕ} (hk : k < p.allSteps) (hlast : k % p.steps + 1 = p.steps)
  {t : List (GemmLabel × Insn)} {s : State Module DepQueue}
  (hrun : labelledNet.Run (p.labelled cfg) (t ++ [p.storeAt cfg k]) s)
include hk hlast hrun

/-- All GEMMs up to that of step `k` have fired. -/
lemma compute_before_store :
    labelledNet.own .compute (p.stepPrefix cfg (k + 1)) <+: labelledNet.own .compute t := by
  obtain ⟨post, hprog⟩ := h.exists_eq_storePrefix hk hlast
  have hpops : p.beforeGemm k .g2s
      < tokens labelledNet.pops .g2s (p.gemmAt cfg k :: [] ++ [p.storeAt cfg k]) :=
    Nat.lt_of_lt_of_eq Nat.zero_lt_one rfl
  have hfired := hrun.own_prefix_of_last hprog h.nodup_labelled rfl (h.replay_gemmPrefix hk) rfl rfl
    (fun hne => nomatch hne) hpops
  have hown : labelledNet.own .compute (p.stepPrefix cfg (k + 1))
      = labelledNet.own .compute (p.gemmPrefix cfg k ++ [p.gemmAt cfg k]) := by
    rw [stepPrefix_succ_eq_gemmPrefix, lastAt, if_pos hlast]
    have : p.gemmPrefix cfg k ++ [p.gemmAt cfg k, p.storeAt cfg k]
        = (p.gemmPrefix cfg k ++ [p.gemmAt cfg k]) ++ [p.storeAt cfg k] := by simp
    rw [this, Net.own_append]
    exact List.append_nil _
  rw [hown]
  exact hfired

/-- Nothing after the GEMM of step `k` has fired. -/
lemma compute_after_store :
    labelledNet.own .compute t <+: labelledNet.own .compute (p.stepPrefix cfg (k + 1)) := by
  obtain ⟨post, hprog⟩ := h.exists_eq_storePrefix hk hlast
  have hpfx : (p.gemmPrefix cfg k ++ [p.gemmAt cfg k]) ++ [p.storeAt cfg k]
      = p.stepPrefix cfg (k + 1) := by
    rw [stepPrefix_succ_eq_gemmPrefix, lastAt, if_pos hlast]
    simp
  have hreplay := (h.replay_gemmPrefix hk).append (p.replay_gemm cfg k)
  -- what the compute module does next: the bias load of the next tile, or the end
  obtain ⟨y, hy, howner, hpops⟩ : ∃ y, p.stepPrefix cfg (k + 1) ++ [y] <+: p.labelled cfg ∧
      labelledNet.owner y = .compute ∧ labelledNet.pops y .s2g = 1 := by
    rcases Nat.lt_or_eq_of_le (Nat.succ_le_of_lt hk) with hlt | heq
    · have hfirst : (k + 1) % p.steps = 0 := by rw [succ_mod h.steps_pos, if_pos hlast]
      refine ⟨p.accAt cfg (k + 1), ?_, rfl, ?_⟩
      · refine List.IsPrefix.trans ?_ (h.stepPrefix_prefix_labelled (s := k + 1 + 1) hlt)
        rw [stepPrefix_succ _ _ (k + 1), stepBlock, headAt, if_pos hfirst]
        simp
      · have hpop : (decide (p.stepI (k + 1) > 0) || decide (p.stepJ (k + 1) > 0)) = true := by
          rw [h.accPopNext_iff]
          have := (pos_iff_div_or_mod p.steps (k + 1)).mp k.succ_pos
          omega
        exact congrArg Bool.toNat hpop
    · refine ⟨finish, ?_, rfl, rfl⟩
      rw [h.labelled_eq_stepPrefix, ← heq]
  have hfired := hrun.own_trace_prefix_of_last (q := .s2g) (c := [p.storeAt cfg k]) (y := y) hprog
    h.nodup_labelled (by rw [← List.append_assoc, hpfx]; exact hy) hreplay rfl howner (by
      have hstore : labelledNet.pops (p.storeAt cfg k) .s2g = 0 := rfl
      have hempty : p.afterGemm k .s2g = 0 := rfl
      simp [hstore, hempty, hpops])
  rw [hpfx, howner] at hfired
  exact hfired

/-- **The compute module when a store fires**: it stands right after the last GEMM of the tile. -/
theorem compute_eq_of_store :
    labelledNet.own .compute t = labelledNet.own .compute (p.stepPrefix cfg (k + 1)) :=
  (h.compute_after_store hk hlast hrun).eq_of_length
    (le_antisymm (h.compute_after_store hk hlast hrun).length_le
      (h.compute_before_store hk hlast hrun).length_le)

end Store

/-! ## Regions -/

/-- Two successive steps use different halves of the buffers when there are two threads. -/
lemma thread_ne_succ (hvt : p.virtualThreads = 2) (k : ℕ) :
    k % p.steps % p.virtualThreads ≠ (k + 1) % p.steps % p.virtualThreads := by
  obtain ⟨m, hm⟩ := h.threads_dvd
  have hmod := Nat.mod_lt k h.steps_pos
  rw [succ_mod h.steps_pos, hvt]
  rw [hvt] at hm
  split_ifs <;> omega

/-- Regions of one size, one for each thread, in two successive steps. -/
lemma disjoint_threads (hvt : p.virtualThreads = 2) {z : ℕ} {region : ℕ → Set ℕ}
    (hregion : ∀ j, region j = {a | j % p.steps % p.virtualThreads * z ≤ a ∧
      a < j % p.steps % p.virtualThreads * z + z}) (k : ℕ) :
    Disjoint (region k) (region (k + 1)) := by
  rw [hregion, hregion]
  exact disjoint_regions (h.thread_ne_succ hvt k)

lemma disjoint_wgt (hvt : p.virtualThreads = 2) (k : ℕ) :
    Disjoint (p.wgtAt cfg k).2.slots (p.wgtAt cfg (k + 1)).2.slots := by
  have hslots : ∀ j, (p.wgtAt cfg j).2.slots = {a | j % p.steps % p.virtualThreads
      * (p.block / cfg.vtaBlockOut * (p.block / cfg.vtaBlockIn)) ≤ a ∧
      a < j % p.steps % p.virtualThreads * (p.block / cfg.vtaBlockOut * (p.block / cfg.vtaBlockIn))
        + p.block / cfg.vtaBlockOut * (p.block / cfg.vtaBlockIn)} := by
    intro j
    rw [← p.sramOffset_eq h.asserts.blockIn_dvd h.asserts.blockOut_dvd]
    rfl
  exact h.disjoint_threads hvt hslots k

lemma disjoint_inp (hvt : p.virtualThreads = 2) (k : ℕ) :
    Disjoint (p.inpAt cfg k).2.slots (p.inpAt cfg (k + 1)).2.slots := by
  have hslots : ∀ j, (p.inpAt cfg j).2.slots = {a | j % p.steps % p.virtualThreads
      * (p.block / cfg.vtaBatch * (p.block / cfg.vtaBlockIn)) ≤ a ∧
      a < j % p.steps % p.virtualThreads * (p.block / cfg.vtaBatch * (p.block / cfg.vtaBlockIn))
        + p.block / cfg.vtaBatch * (p.block / cfg.vtaBlockIn)} := by
    intro j
    rw [← p.sramOffset_eq h.asserts.blockIn_dvd h.asserts.vtaBatch_dvd]
    rfl
  exact h.disjoint_threads hvt hslots k

/-! ## The exclusion -/

/-- The load module when a GEMM fires: it stands after the loads of the step, or inside those of
the next step of the other thread. -/
lemma own_load_of_gemm {k : ℕ} (hk : k < p.allSteps) {t : List (GemmLabel × Insn)}
    {s : State Module DepQueue}
    (hrun : labelledNet.Run (p.labelled cfg) (t ++ [p.gemmAt cfg k]) s) :
    ∃ l, labelledNet.own .load t = labelledNet.own .load (p.stepPrefix cfg k) ++
        p.wgtAt cfg k :: p.inpAt cfg k :: l ∧
      ∀ y ∈ l, p.virtualThreads = 2 ∧ (y = p.wgtAt cfg (k + 1) ∨ y = p.inpAt cfg (k + 1)) := by
  obtain ⟨l, hl⟩ := h.load_before_gemm hk hrun
  have hafter := h.load_after_gemm hk hrun
  refine ⟨l, ?_, fun y hy => ?_⟩
  · rw [← hl, stepPrefix_succ, Net.own_append, own_load_stepBlock]
    simp
  · rw [← hl] at hafter
    rcases h.threads with hvt | ⟨hvt, -⟩
    · rw [hvt, ← List.append_nil (labelledNet.own .load (p.stepPrefix cfg (k + 1))),
        List.append_assoc, List.prefix_append_right_inj, List.nil_append] at hafter
      simp [List.prefix_nil.mp hafter] at hy
    · rw [hvt, ← Nat.add_assoc k 1 1, stepPrefix_succ _ _ (k + 1), Net.own_append,
        own_load_stepBlock, List.prefix_append_right_inj] at hafter
      exact ⟨hvt, by simpa using hafter.subset hy⟩

/-- When the GEMM of step `k` fires, the weights of the step are the last ones in their region. -/
lemma lastLoad_wgt {k : ℕ} (hk : k < p.allSteps) {t : List (GemmLabel × Insn)}
    {s : State Module DepQueue}
    (hrun : labelledNet.Run (p.labelled cfg) (t ++ [p.gemmAt cfg k]) s) :
    LastLoad .wgt (p.wgtAt cfg k) t := by
  obtain ⟨l, hown, hafter⟩ := h.own_load_of_gemm hk hrun
  refine lastLoad_of_own rfl hown ?_
  intro y hy hload
  rcases List.mem_cons.mp hy with rfl | hy
  · exact absurd hload Bool.false_ne_true
  · obtain ⟨hvt, rfl | rfl⟩ := hafter y hy
    · exact h.disjoint_wgt hvt k
    · exact absurd hload Bool.false_ne_true

/-- When the GEMM of step `k` fires, the inputs of the step are the last ones in their region. -/
lemma lastLoad_inp {k : ℕ} (hk : k < p.allSteps) {t : List (GemmLabel × Insn)}
    {s : State Module DepQueue}
    (hrun : labelledNet.Run (p.labelled cfg) (t ++ [p.gemmAt cfg k]) s) :
    LastLoad .inp (p.inpAt cfg k) t := by
  obtain ⟨l, hown, hafter⟩ := h.own_load_of_gemm hk hrun
  refine lastLoad_of_own (l := labelledNet.own .load (p.stepPrefix cfg k) ++ [p.wgtAt cfg k])
    rfl (by simpa using hown) ?_
  intro y hy hload
  obtain ⟨hvt, rfl | rfl⟩ := hafter y hy
  · exact absurd hload Bool.false_ne_true
  · exact h.disjoint_inp hvt k

/-- The instructions of the stream. -/
lemma mem_labelled {x : GemmLabel × Insn} (hx : x ∈ p.labelled cfg) :
    x = (.uop, .mem (p.uopInsn cfg)) ∨ x = finish ∨ ∃ k < p.allSteps, x ∈ p.stepBlock cfg k := by
  rw [h.labelled_eq_stepPrefix, stepPrefix] at hx
  simp only [List.mem_append, List.mem_singleton, List.mem_flatMap, List.mem_range] at hx
  tauto

/-- The GEMM instruction a label names. -/
lemma exists_gemmAt {x : GemmLabel × Insn} {i j kl : ℕ} (hx : x ∈ p.labelled cfg)
    (hl : x.1 = .gemm i j kl) : ∃ k < p.allSteps, x = p.gemmAt cfg k := by
  rcases h.mem_labelled hx with rfl | rfl | ⟨k, hk, hx⟩
  · simp at hl
  · simp [finish] at hl
  · refine ⟨k, hk, ?_⟩
    rcases (p.mem_stepBlock cfg).mp hx with ⟨-, rfl⟩ | rfl | rfl | rfl | ⟨-, rfl⟩ <;>
      first | rfl | simp [accAt, wgtAt, inpAt, storeAt] at hl

/-- The store instruction a label names. -/
lemma exists_storeAt {x : GemmLabel × Insn} {i j : ℕ} (hx : x ∈ p.labelled cfg)
    (hl : x.1 = .store i j) :
    ∃ k < p.allSteps, k % p.steps + 1 = p.steps ∧ x = p.storeAt cfg k := by
  rcases h.mem_labelled hx with rfl | rfl | ⟨k, hk, hx⟩
  · simp at hl
  · simp [finish] at hl
  · refine ⟨k, hk, ?_⟩
    rcases (p.mem_stepBlock cfg).mp hx with ⟨-, rfl⟩ | rfl | rfl | rfl | ⟨hlast, rfl⟩ <;>
      first | exact ⟨hlast, rfl⟩ | simp [accAt, wgtAt, inpAt, gemmAt] at hl

/-- The bias loads run on the compute module. -/
lemma owner_of_acc {x : GemmLabel × Insn} {i j : ℕ} (hx : x ∈ p.labelled cfg)
    (hl : x.1 = .acc i j) : labelledNet.owner x = .compute := by
  rcases h.mem_labelled hx with rfl | rfl | ⟨k, -, hx⟩
  · rfl
  · rfl
  · rcases (p.mem_stepBlock cfg).mp hx with ⟨-, rfl⟩ | rfl | rfl | rfl | ⟨-, rfl⟩ <;>
      first | rfl | simp [wgtAt, inpAt, storeAt] at hl

/-- The GEMMs of a tile, in the order of the channel blocks. -/
lemma labels_of_tile (k : ℕ) :
    ((List.range p.steps).map fun j => p.gemmAt cfg (k / p.steps * p.steps + j)).map Prod.fst =
      (upTo p.inFeat p.block).map (.gemm (p.stepI k) (p.stepJ k)) := by
  rw [inFeat, h.upTo_channels, List.map_map, List.map_map]
  refine List.map_congr_left fun j hj => ?_
  have hj' : j < p.steps := List.mem_range.mp hj
  have hdiv : (k / p.steps * p.steps + j) / p.steps = k / p.steps := by
    rw [Nat.mul_comm, Nat.mul_add_div h.steps_pos, Nat.div_eq_of_lt hj', Nat.add_zero]
  have hmod : (k / p.steps * p.steps + j) % p.steps = j := by
    rw [Nat.mul_comm, Nat.mul_add_mod, Nat.mod_eq_of_lt hj']
  simp only [Function.comp, gemmAt, stepI, stepJ, hdiv, stepK_add_stepL, hmod]

/-- Tiles are visited in lexicographic order. -/
lemma tile_le {k k' : ℕ} (hk : k' ≤ k) :
    p.stepI k' < p.stepI k ∨ p.stepI k' = p.stepI k ∧ p.stepJ k' ≤ p.stepJ k := by
  have hdiv : k' / p.steps ≤ k / p.steps := Nat.div_le_div_right hk
  have htile := Nat.div_add_mod' (k / p.steps) p.steps
  have htile' := Nat.div_add_mod' (k' / p.steps) p.steps
  rcases Nat.lt_or_eq_of_le (Nat.div_le_div_right (c := p.steps) hdiv) with hlt | heq
  · exact .inl (Nat.mul_lt_mul_of_pos_right hlt h.block_pos)
  · refine .inr ⟨by rw [stepI, stepI, heq], Nat.mul_le_mul_right _ ?_⟩
    rw [heq] at htile'
    omega

section Store

variable {k : ℕ} (hk : k < p.allSteps) (hlast : k % p.steps + 1 = p.steps)
  {t : List (GemmLabel × Insn)} {s : State Module DepQueue}
  (hrun : labelledNet.Run (p.labelled cfg) (t ++ [p.storeAt cfg k]) s)
include hk hlast hrun

/-- When the store of a tile fires, the compute module has run the tile's bias load and then the
tile's GEMMs, and nothing since. -/
lemma own_compute_of_store : ∃ pre, labelledNet.own .compute t = pre ++
    p.accAt cfg (k / p.steps * p.steps) ::
      (List.range p.steps).map fun j => p.gemmAt cfg (k / p.steps * p.steps + j) := by
  have hown := h.compute_eq_of_store hk hlast hrun
  -- the first step of the tile
  have hfirst : k / p.steps * p.steps % p.steps = 0 := Nat.mul_mod_left _ _
  have hk' : k + 1 = k / p.steps * p.steps + (p.steps - 1 + 1) := by
    have := Nat.div_add_mod' k p.steps
    omega
  rw [hk', own_compute_tile _ _ hfirst _ (by omega), Nat.sub_add_cancel h.steps_pos] at hown
  exact ⟨_, hown⟩

/-- The last bias load is that of the tile, and exactly the tile's GEMMs have fired since. -/
lemma gemms_since_acc : ∃ w t₁ t₂, w.1 = .acc (p.stepI k) (p.stepJ k) ∧ t = t₁ ++ w :: t₂ ∧
    (∀ y ∈ t₂, ¬ y.2.loads .acc) ∧ (t₂.filter fun y => y.2.isGemm).map Prod.fst =
      (upTo p.inFeat p.block).map (.gemm (p.stepI k) (p.stepJ k)) := by
  obtain ⟨pre, hown⟩ := h.own_compute_of_store hk hlast hrun
  obtain ⟨t₁, t₂, rfl, ht₂⟩ := Net.exists_split_of_own hown
  refine ⟨_, t₁, t₂, ?_, rfl, ?_, ?_⟩
  · simp [accAt, stepI, stepJ, Nat.mul_div_cancel _ h.steps_pos]
  · intro y hy hload
    have howner : labelledNet.owner y = .compute := owner_of_loads hload
    have hmem := Net.mem_own.mpr ⟨hy, howner⟩
    rw [ht₂, List.mem_map] at hmem
    obtain ⟨j, -, rfl⟩ := hmem
    exact Bool.false_ne_true hload
  · have hgemm : ∀ k, (p.gemmAt cfg k).2.isGemm = true := by
      intro k
      simp [gemmAt, Insn.isGemm, gemmInsn]
    have hall : ∀ y ∈ labelledNet.own .compute t₂, y.2.isGemm = true := by
      intro y hy
      rw [ht₂] at hy
      obtain ⟨j, -, rfl⟩ := List.mem_map.mp hy
      exact hgemm _
    rw [← filter_isGemm_own, List.filter_eq_self.mpr hall, ht₂]
    exact h.labels_of_tile k

/-- No bias load of a later tile has fired. -/
lemma acc_le_of_store {y : GemmLabel × Insn} (hy : y ∈ t) {i j : ℕ} (hlab : y.1 = .acc i j) :
    i < p.stepI k ∨ i = p.stepI k ∧ j ≤ p.stepJ k := by
  have hacc := h.owner_of_acc (hrun.subperm.subset (List.mem_append_left _ hy)) hlab
  have hmem : y ∈ labelledNet.own .compute t := Net.mem_own.mpr ⟨hy, hacc⟩
  rw [h.compute_eq_of_store hk hlast hrun] at hmem
  obtain ⟨k', hlt, rfl, rfl⟩ := p.acc_mem_stepPrefix cfg (Net.mem_own.mp hmem).1 hlab
  exact h.tile_le (by omega)

end Store

/-- **The tokens exclude every hazard.**  When the GEMM of a step fires, the last loads into the
weight and input regions of the step are the step's own; when the store of a tile fires, the last
bias load is that of the tile, exactly the tile's GEMMs have fired since, and no later tile's bias
load has fired. -/
theorem hazards_excluded {t : List (GemmLabel × Insn)} {x : GemmLabel × Insn}
    {s : State Module DepQueue} (hrun : labelledNet.Run (p.labelled cfg) (t ++ [x]) s) :
    (∀ i j kl, x.1 = .gemm i j kl →
      (∃ w, w.1 = .wgt i j kl ∧ LastLoad .wgt w t) ∧ ∃ w, w.1 = .inp i j kl ∧ LastLoad .inp w t) ∧
    ∀ i j, x.1 = .store i j →
      (∃ w t₁ t₂, w.1 = .acc i j ∧ t = t₁ ++ w :: t₂ ∧ (∀ y ∈ t₂, ¬ y.2.loads .acc) ∧
        (t₂.filter fun y => y.2.isGemm).map Prod.fst = (upTo p.inFeat p.block).map (.gemm i j)) ∧
      ∀ y ∈ t, ∀ i' j', y.1 = .acc i' j' → i' < i ∨ i' = i ∧ j' ≤ j := by
  constructor
  · intro i j kl hl
    obtain ⟨k, hk, rfl⟩ := h.exists_gemmAt hrun.mem_of_last hl
    obtain ⟨rfl, rfl, rfl⟩ : p.stepI k = i ∧ p.stepJ k = j ∧ p.stepK k + p.stepL k = kl := by
      simpa [gemmAt] using hl
    exact ⟨⟨_, rfl, h.lastLoad_wgt hk hrun⟩, ⟨_, rfl, h.lastLoad_inp hk hrun⟩⟩
  · intro i j hl
    obtain ⟨k, hk, hlast, rfl⟩ := h.exists_storeAt hrun.mem_of_last hl
    obtain ⟨rfl, rfl⟩ : p.stepI k = i ∧ p.stepJ k = j := by simpa [storeAt] using hl
    refine ⟨h.gemms_since_acc hk hlast hrun, ?_⟩
    intro y hy i' j' hlab
    exact h.acc_le_of_store hk hlast hrun hy hlab

end Valid

/-- The load module is one step ahead when the first GEMM of `twoThreadGemm` fires. -/
theorem Valid.hazards_excluded_ahead :
    ∃ w, w.1 = .wgt 0 0 0 ∧ LastLoad .wgt w
      [twoThreadGemm.wgtAt config16 0, twoThreadGemm.inpAt config16 0,
        twoThreadGemm.wgtAt config16 1, (.uop, .mem (twoThreadGemm.uopInsn config16)),
        twoThreadGemm.accAt config16 0] := by
  have hwgt : labelledNet.Run (twoThreadGemm.labelled config16)
      [twoThreadGemm.wgtAt config16 0] _ :=
    .snoc (t := []) (m := .load) .nil rfl fun q => by cases q <;> decide
  have hinp := Net.Run.snoc (m := .load) (i := twoThreadGemm.inpAt config16 0) hwgt rfl
    fun q => by cases q <;> decide
  have hahead := Net.Run.snoc (m := .load) (i := twoThreadGemm.wgtAt config16 1) hinp rfl
    fun q => by cases q <;> decide
  have huop := Net.Run.snoc (m := .compute) (i := (.uop, .mem (twoThreadGemm.uopInsn config16)))
    hahead rfl fun q => by cases q <;> decide
  have hacc := Net.Run.snoc (m := .compute) (i := twoThreadGemm.accAt config16 0) huop rfl
    fun q => by cases q <;> decide
  have hgemm := Net.Run.snoc (m := .compute) (i := twoThreadGemm.gemmAt config16 0) hacc rfl
    fun q => by cases q <;> decide
  exact ((twoThreadGemm_valid.hazards_excluded hgemm).1 0 0 0 rfl).1

end BlockedGemm

end ThreeLaSim
