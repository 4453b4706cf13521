import ThreeLaSim.Vta.Hazards
import ThreeLaSim.Vta.Machine

/-!
# The three modules act as one

The load, compute and store modules run the stream of a test concurrently, held together by the
dependence tokens only.  For a machine that keeps to its footprints this makes no difference to the
memories: whatever the modules do in between, they are left as if the instructions had run one after
the other in the order of the buffer.

* `BlockedGemm.Valid.commute_of_reversed` — the instructions of `blocked_gemm_test` that fire out of
  order do not touch the same cells.
* **`BlockedGemm.Valid.schedule_independent`** — so every completed interleaving of
  `blocked_gemm_test` has the effect of the program order.
* **`programOrder_only`** — the streams of `alu_test` and `gemm_test` have no other interleaving.
-/

namespace ThreeLaSim

open TokenNet LoopNest Footprint

/-! ## Transfers of different memories -/

section Touches

variable {m : MemInsn} {l : Loc}

/-- A transfer reads its own memory only. -/
lemma mem_of_reads {uops : List Uop} (h : l ∈ Insn.reads uops (.mem m)) : l.mem = m.memoryType := by
  simp only [Insn.reads] at h
  cases hop : m.opcode <;> simp only [hop] at h <;> obtain ⟨mv, -, rfl⟩ := h <;> rfl

/-- A transfer writes its own memory only. -/
lemma mem_of_writes (h : l ∈ Insn.writes (.mem m)) : l.mem = m.memoryType := by
  simp only [Insn.writes] at h
  cases hop : m.opcode <;> simp only [hop] at h <;> obtain ⟨mv, -, rfl⟩ := h <;> rfl

/-- The transfers of the load module. -/
lemma eq_of_module_load (h : (Insn.mem m).module = .load) :
    m.opcode = .load ∧ (m.memoryType = .wgt ∨ m.memoryType = .inp) := by
  simp only [Insn.module] at h
  split at h <;> simp_all

end Touches

section Commute

variable {cfg : VtaConfig} (M : Machine cfg)

/-- Transfers of different memories commute. -/
lemma commute_mem {m m' : MemInsn} (hp : m.Plain) (hc : m.OnChip cfg) (hp' : m'.Plain)
    (hc' : m'.OnChip cfg) (hne : m.memoryType ≠ m'.memoryType) (σ : Memory cfg) :
    M.exec (.mem m) (M.exec (.mem m') σ) = M.exec (.mem m') (M.exec (.mem m) σ) := by
  refine (M.respects_mem [] hp hc).commute (M.respects_mem [] hp' hc') ?_ ?_ ?_ trivial <;>
    refine Set.disjoint_left.mpr fun l hl hl' => hne ?_
  · rw [← mem_of_reads hl', mem_of_writes hl]
  · rw [← mem_of_writes hl, mem_of_reads hl']
  · rw [← mem_of_writes hl, mem_of_writes hl']

/-- A finish instruction commutes with everything. -/
lemma commute_finish {g : GemInsn} (hop : g.opcode = .finish) (i : Insn) (σ : Memory cfg) :
    M.exec (.gem g) (M.exec i σ) = M.exec i (M.exec (.gem g) σ) := by
  rw [M.finish g _ hop, M.finish g _ hop]

end Commute

/-- What stands in a beginning of the program stands before what does not. -/
lemma pair_of_prefix {I : Type*} {x y : I} {pre l : List I} (hpre : pre <+: l) (hx : x ∈ pre)
    (hy : y ∈ l) (hy' : y ∉ pre) : [x, y].Sublist l := by
  obtain ⟨r, rfl⟩ := hpre
  have hyr : y ∈ r := (List.mem_append.mp hy).resolve_left hy'
  exact (List.singleton_sublist.mpr hx).append (List.singleton_sublist.mpr hyr)

namespace BlockedGemm

variable (cfg : VtaConfig) (p : BlockedGemm)

/-- The blocks of all threads together fit the input memory and the weight memory. -/
structure FitsChip : Prop where
  inp_le : p.virtualThreads * p.inpBlockSize cfg ≤ cfg.inpBuffDepth
  wgt_le : p.virtualThreads * p.wgtBlockSize cfg ≤ cfg.wgtBuffDepth

variable {cfg} {p}

lemma snd_mem_insns {x : GemmLabel × Insn} (hx : x ∈ p.labelled cfg) : x.2 ∈ p.insns cfg :=
  List.mem_map_of_mem hx

namespace Valid

variable (h : p.Valid cfg)
include h

lemma threads_eq : p.virtualThreads = 1 ∨ p.virtualThreads = 2 :=
  h.threads.imp_right And.left

/-! ## The instructions of the stream run on the machine -/

/-- No transfer is padded, and no rows overlap. -/
lemma plain {m : MemInsn} (hm : .mem m ∈ p.insns cfg) : m.Plain := by
  have hle : ∀ b, p.block / b ≤ p.channels / b := fun b =>
    Nat.div_le_div_right (Nat.le_of_dvd h.channels_pos h.asserts.block_dvd_channels)
  rcases mem_insns.mp hm with rfl | ⟨i, -, j, -, rfl | ⟨k, -, l, -, rfl | rfl⟩ | rfl⟩
  · exact ⟨rfl, rfl, rfl, rfl, le_rfl⟩
  all_goals exact ⟨rfl, rfl, rfl, rfl, hle _⟩

/-- The micro-op buffer is as long as the micro-op load says. -/
lemma length_uops_eq : (p.uops cfg).length = p.uopSize cfg := by
  have hthreads : (if 1 < p.virtualThreads then 2 else 1) = p.virtualThreads := by
    rcases h.threads_eq with hvt | hvt <;> simp [hvt]
  rw [length_uops, uopSize_eq h.asserts, hthreads]

lemma length_uops_le : (p.uops cfg).length ≤ cfg.uopBuffDepth :=
  h.length_uops_eq.trans_le h.asserts.uopSize_le

lemma gemm_uopEnd_le {g : GemInsn} (hg : .gem g ∈ p.insns cfg) :
    g.uopEnd ≤ (p.uops cfg).length := by
  by_contra hlt
  exact (gemm_uop_lt h.block_pos h.asserts h.threads_eq hg (Nat.not_le.mp hlt)).false

section OnChip

variable (hfit : p.FitsChip cfg)
include hfit

lemma onChip {m : MemInsn} (hm : .mem m ∈ p.insns cfg) : m.OnChip cfg :=
  transfer_slot_lt h.block_pos h.asserts hfit.inp_le hfit.wgt_le hm

lemma gemm_onChip {g : GemInsn} (hg : .gem g ∈ p.insns cfg) : g.OnChip cfg (p.uops cfg) where
  uopEnd_le := (h.gemm_uopEnd_le hg).trans h.length_uops_le
  slots_lt _ hu :=
    gemm_slot_lt h.block_pos h.asserts h.threads_eq hfit.inp_le hfit.wgt_le hg hu

end OnChip

/-! ## Order in the stream -/

lemma stepPrefix_subset {s : ℕ} (hs : s ≤ p.allSteps) {x : GemmLabel × Insn}
    (hx : x ∈ p.stepPrefix cfg s) : x ∈ p.labelled cfg :=
  (h.stepPrefix_prefix_labelled hs).subset hx

/-- What the load module runs. -/
lemma eq_of_owner_load {x : GemmLabel × Insn} (hx : x ∈ p.labelled cfg)
    (howner : labelledNet.owner x = .load) :
    ∃ k < p.allSteps, x = p.wgtAt cfg k ∨ x = p.inpAt cfg k := by
  rcases h.mem_labelled hx with rfl | rfl | ⟨k, hk, hx⟩
  · cases howner
  · cases howner
  · refine ⟨k, hk, ?_⟩
    rcases (p.mem_stepBlock cfg).mp hx with ⟨-, rfl⟩ | rfl | rfl | rfl | ⟨-, rfl⟩
    · cases howner
    · exact .inl rfl
    · exact .inr rfl
    · cases howner
    · cases howner

/-- What the load module runs are transfers of its memories. -/
lemma transfer_of_load {x : GemmLabel × Insn} (hx : x ∈ p.labelled cfg)
    (howner : labelledNet.owner x = .load) :
    ∃ m, x.2 = .mem m ∧ ∀ mem, MemId.loader mem = .compute → m.memoryType ≠ mem := by
  obtain ⟨k, -, rfl | rfl⟩ := h.eq_of_owner_load hx howner <;>
    refine ⟨_, rfl, fun mem hmem heq => ?_⟩ <;> rw [← heq] at hmem <;> cases hmem

/-- What the store module runs. -/
lemma eq_of_owner_store {x : GemmLabel × Insn} (hx : x ∈ p.labelled cfg)
    (howner : labelledNet.owner x = .store) :
    ∃ k < p.allSteps, k % p.steps + 1 = p.steps ∧ x = p.storeAt cfg k := by
  rcases h.mem_labelled hx with rfl | rfl | ⟨k, hk, hx⟩
  · cases howner
  · cases howner
  · refine ⟨k, hk, ?_⟩
    rcases (p.mem_stepBlock cfg).mp hx with ⟨-, rfl⟩ | rfl | rfl | rfl | ⟨hlast, rfl⟩
    · cases howner
    · cases howner
    · cases howner
    · cases howner
    · exact ⟨hlast, rfl⟩

/-- What the other modules run are transfers, not of the micro-op memory. -/
lemma transfer_of_not_compute {x : GemmLabel × Insn} (hx : x ∈ p.labelled cfg)
    (howner : labelledNet.owner x ≠ .compute) : ∃ m, x.2 = .mem m ∧ m.memoryType ≠ .uop := by
  cases hox : labelledNet.owner x with
  | load =>
      obtain ⟨m, hm, htype⟩ := h.transfer_of_load hx hox
      exact ⟨m, hm, htype .uop rfl⟩
  | compute => exact absurd hox howner
  | store =>
      obtain ⟨k, -, -, rfl⟩ := h.eq_of_owner_store hx hox
      exact ⟨_, rfl, fun htype => nomatch htype⟩

/-- What the compute module runs: transfers of its own memories, GEMMs, and the end. -/
lemma eq_of_owner_compute {x : GemmLabel × Insn} (hx : x ∈ p.labelled cfg)
    (howner : labelledNet.owner x = .compute) :
    (∃ m, x.2 = .mem m ∧ (m.memoryType = .uop ∨ m.memoryType = .acc)) ∨ x = finish ∨
      ∃ k < p.allSteps, x = p.gemmAt cfg k := by
  rcases h.mem_labelled hx with rfl | rfl | ⟨k, hk, hx⟩
  · exact .inl ⟨_, rfl, .inl rfl⟩
  · exact .inr (.inl rfl)
  · rcases (p.mem_stepBlock cfg).mp hx with ⟨-, rfl⟩ | rfl | rfl | rfl | ⟨-, rfl⟩
    · exact .inl ⟨_, rfl, .inr rfl⟩
    · cases howner
    · cases howner
    · exact .inr (.inr ⟨k, hk, rfl⟩)
    · cases howner

/-! ## The slots of a GEMM -/

/-- A GEMM reads the weight and input slots its own step loads. -/
lemma slots_of_gemm {k : ℕ} {u : Uop}
    (hu : u ∈ (p.gemmInsn cfg (p.stepI k) (p.stepJ k) (p.stepK k) (p.stepL k)).expand (p.uops cfg)) :
    u.wgtIdx ∈ (p.wgtAt cfg k).2.slots ∧ u.srcIdx ∈ (p.inpAt cfg k).2.slots := by
  have hl : p.stepL k ∈ upTo (p.block * p.virtualThreads) p.block := by
    refine (mem_upTo h.block_pos).mpr ⟨Nat.dvd_mul_left _ _, ?_⟩
    rw [stepL, Nat.mul_comm p.block]
    exact Nat.mul_lt_mul_of_pos_right (Nat.mod_lt _ h.threads_pos) h.block_pos
  have hperm := expand_gemmInsn h.block_pos h.asserts h.threads_eq hl (i := p.stepI k)
    (j := p.stepJ k) (k := p.stepK k)
  obtain ⟨⟨r, c, x⟩, ht, rfl⟩ := List.mem_map.mp (hperm.mem_iff.mp hu)
  obtain ⟨hr, hc, hx⟩ := mem_tileTriples.mp ht
  -- slot `(y, x)` of a transfer is one of its slots
  have hslot : ∀ (m : MemInsn) {y x : ℕ}, y < m.ySize → x < m.xSize →
      m.slot y x ∈ (Insn.mem m).slots := by
    intro m y x hy hx
    have hlt : y * m.xSize + x < m.ySize * m.xSize := mul_add_lt hy hx
    show m.sramBase ≤ m.slot y x ∧ m.slot y x < m.sramBase + m.ySize * m.xSize
    rw [MemInsn.slot, Nat.add_assoc]
    omega
  exact ⟨hslot (p.wgtInsn cfg ..) hc hx, hslot (p.inpInsn cfg ..) hr hx⟩

/-! ## What an interleaving fires out of order -/

section Fired

variable {t : List (GemmLabel × Insn)} {s : State Module DepQueue} {k : ℕ} (hk : k < p.allSteps)
include hk

/-- A load a GEMM did not wait for stands behind it. -/
lemma gemm_pair_load (hrun : labelledNet.Run (p.labelled cfg) (t ++ [p.gemmAt cfg k]) s)
    {x : GemmLabel × Insn} (hx : x ∈ p.labelled cfg) (howner : labelledNet.owner x = .load)
    (hxt : x ∉ t) : [p.gemmAt cfg k, x].Sublist (p.labelled cfg) := by
  refine pair_of_prefix (h.stepPrefix_prefix_labelled (s := k + 1) hk) ?_ hx fun hmem => hxt ?_
  · rw [stepPrefix_succ_eq_gemmPrefix]
    simp
  · have hfired := (h.load_before_gemm hk hrun).subset (Net.mem_own.mpr ⟨hmem, howner⟩)
    exact (Net.mem_own.mp hfired).1

/-- A load that fired before a GEMM stands before it, or is one step ahead. -/
lemma load_pair_gemm (hrun : labelledNet.Run (p.labelled cfg) (t ++ [p.gemmAt cfg k]) s)
    {y : GemmLabel × Insn} (howner : labelledNet.owner y = .load) (hy : y ∈ t) :
    [y, p.gemmAt cfg k].Sublist (p.labelled cfg) ∨
      p.virtualThreads = 2 ∧ (y = p.wgtAt cfg (k + 1) ∨ y = p.inpAt cfg (k + 1)) := by
  obtain ⟨l, hown, hafter⟩ := h.own_load_of_gemm hk hrun
  have hyl : y ∈ labelledNet.own .load t := Net.mem_own.mpr ⟨hy, howner⟩
  rw [hown, List.append_cons, List.append_cons] at hyl
  rcases List.mem_append.mp hyl with hbefore | hahead
  · left
    have hmem : y ∈ p.gemmPrefix cfg k := by
      rw [gemmPrefix]
      simp only [List.mem_append, List.mem_cons, List.not_mem_nil, or_false] at hbefore ⊢
      rcases hbefore with (hpre | hwgt) | hinp
      · exact .inl (.inl (Net.mem_own.mp hpre).1)
      · exact .inr (.inl hwgt)
      · exact .inr (.inr hinp)
    obtain ⟨post, hpost⟩ := h.exists_eq_gemmPrefix hk
    rw [hpost, List.append_assoc]
    exact (List.singleton_sublist.mpr hmem).append (List.singleton_sublist.mpr List.mem_cons_self)
  · exact .inr (hafter y hahead)

variable (hlast : k % p.steps + 1 = p.steps)
  (hrun : labelledNet.Run (p.labelled cfg) (t ++ [p.storeAt cfg k]) s)
include hlast hrun

/-- What the compute module had not fired before a store stands behind it. -/
lemma store_pair_compute {x : GemmLabel × Insn} (hx : x ∈ p.labelled cfg)
    (howner : labelledNet.owner x = .compute) (hxt : x ∉ t) :
    [p.storeAt cfg k, x].Sublist (p.labelled cfg) := by
  refine pair_of_prefix (h.stepPrefix_prefix_labelled (s := k + 1) hk) ?_ hx fun hmem => hxt ?_
  · rw [stepPrefix_succ_eq_gemmPrefix, lastAt, if_pos hlast]
    simp
  · have hfired := (h.compute_before_store hk hlast hrun).subset (Net.mem_own.mpr ⟨hmem, howner⟩)
    exact (Net.mem_own.mp hfired).1

/-- What the compute module had fired before a store stands before it. -/
lemma compute_pair_store {y : GemmLabel × Insn} (howner : labelledNet.owner y = .compute)
    (hy : y ∈ t) : [y, p.storeAt cfg k].Sublist (p.labelled cfg) := by
  have hfired := (h.compute_after_store hk hlast hrun).subset (Net.mem_own.mpr ⟨hy, howner⟩)
  have hmem := (Net.mem_own.mp hfired).1
  rw [stepPrefix_succ_eq_gemmPrefix, lastAt, if_pos hlast, List.append_cons] at hmem
  obtain ⟨post, hpost⟩ := h.exists_eq_storePrefix hk hlast
  rw [hpost]
  rcases List.mem_append.mp hmem with hmem | hmem
  · exact (List.singleton_sublist.mpr hmem).append (List.singleton_sublist.mpr List.mem_cons_self)
  · rw [List.mem_singleton.mp hmem] at howner
    cases howner

end Fired

/-! ## What fires out of order may be swapped -/

section Swap

variable (hfit : p.FitsChip cfg) (M : Machine cfg)
include hfit

/-- Two transfers of the stream that belong to different memories. -/
lemma commute_transfers {x y : GemmLabel × Insn} {m m' : MemInsn} (hx : x ∈ p.labelled cfg)
    (hy : y ∈ p.labelled cfg) (hm : x.2 = .mem m) (hm' : y.2 = .mem m')
    (hne : m.memoryType ≠ m'.memoryType) (σ : Memory cfg) :
    M.exec x.2 (M.exec y.2 σ) = M.exec y.2 (M.exec x.2 σ) := by
  have hx := snd_mem_insns hx
  have hy := snd_mem_insns hy
  rw [hm] at hx
  rw [hm'] at hy
  rw [hm, hm']
  exact commute_mem M (h.plain hx) (h.onChip hfit hx) (h.plain hy) (h.onChip hfit hy) hne σ

/-- A load commutes with a GEMM that does not read the slots it fills. -/
lemma commute_load_gemm {k : ℕ} (hk : k < p.allSteps) {m : MemInsn} (hm : .mem m ∈ p.insns cfg)
    (hload : (Insn.mem m).module = .load)
    (hwgt : m.memoryType = .wgt → Disjoint (p.wgtAt cfg k).2.slots (Insn.mem m).slots)
    (hinp : m.memoryType = .inp → Disjoint (p.inpAt cfg k).2.slots (Insn.mem m).slots)
    {σ : Memory cfg} (hσ : HoldsUops (p.uops cfg) σ) :
    M.exec (.mem m) (M.exec (p.gemmAt cfg k).2 σ)
      = M.exec (p.gemmAt cfg k).2 (M.exec (.mem m) σ) := by
  have hg : .gem (p.gemmInsn cfg (p.stepI k) (p.stepJ k) (p.stepK k) (p.stepL k)) ∈ p.insns cfg :=
    snd_mem_insns (x := p.gemmAt cfg k) (h.stepPrefix_subset (s := k + 1) hk
      (by rw [stepPrefix_succ_eq_gemmPrefix]; simp))
  have hopg : (p.gemmInsn cfg (p.stepI k) (p.stepJ k) (p.stepK k) (p.stepL k)).opcode = .gemm :=
    getGEMMInsn_opcode ..
  obtain ⟨hop, htype⟩ := eq_of_module_load hload
  have hwrites : Insn.writes (.mem m) = {l | ∃ mv ∈ m.moves, l = .sram m.memoryType mv.1} := by
    simp only [Insn.writes, hop]
  have hnot : ∀ l : Loc, l.mem = m.memoryType → ∀ d, ¬ (l = .sram .acc d ∨ l = .sram .out d) := by
    rintro l hl d (rfl | rfl) <;> rcases htype with htype | htype <;> simp [htype] at hl
  have hslot : ∀ mv ∈ m.moves, mv.1 ∈ (Insn.mem m).slots := by
    intro mv hmv
    refine ⟨?_, MemInsn.slot_lt hmv⟩
    rw [MemInsn.moves_eq] at hmv
    obtain ⟨n, -, rfl⟩ := List.mem_map.mp hmv
    exact Nat.le_add_right _ _
  have huop : ∀ n, Loc.sram .uop n ∉ Insn.writes (.mem m) := by
    intro n hn
    have hmem := mem_of_writes hn
    rcases htype with htype | htype <;> simp [htype] at hmem
  refine (Machine.respects_holdsUops (M.respects_mem (p.uops cfg) (h.plain hm) (h.onChip hfit hm))
    huop).commute
    (Machine.respects_gemm (M := M) hopg (getGEMMInsn_resetReg ..) h.length_uops_le
      (h.gemm_uopEnd_le hg) (h.gemm_onChip hfit hg)) ?_ ?_ ?_ hσ
  · refine Set.disjoint_left.mpr fun l hl hl' => ?_
    simp only [Insn.writes, hopg] at hl
    obtain ⟨d, hl⟩ := hl
    exact hnot l (mem_of_reads hl') d hl
  · -- the slots the load fills are not those the GEMM reads
    refine Set.disjoint_left.mpr fun l hl hl' => ?_
    have hmem := mem_of_writes hl
    rw [hwrites] at hl
    obtain ⟨mv, hmv, rfl⟩ := hl
    simp only [Insn.reads, hopg] at hl'
    rcases hl' with ⟨d, hl'⟩ | ⟨u, hu, hl' | hl'⟩
    · exact hnot _ hmem d hl'
    · obtain ⟨htype, hidx⟩ : m.memoryType = .wgt ∧ mv.1 = u.wgtIdx := by simpa using hl'
      exact Set.disjoint_left.mp (hwgt htype) (h.slots_of_gemm hu).1 (hidx ▸ hslot mv hmv)
    · obtain ⟨htype, hidx⟩ : m.memoryType = .inp ∧ mv.1 = u.srcIdx := by simpa using hl'
      exact Set.disjoint_left.mp (hinp htype) (h.slots_of_gemm hu).2 (hidx ▸ hslot mv hmv)
  · refine Set.disjoint_left.mpr fun l hl hl' => ?_
    simp only [Insn.writes, hopg] at hl'
    obtain ⟨d, hl'⟩ := hl'
    exact hnot l (mem_of_writes hl) d hl'

/-- A load that is one step ahead commutes with the GEMM it overtakes. -/
lemma commute_ahead {k : ℕ} (hk : k < p.allSteps) {y : GemmLabel × Insn}
    (hy : y ∈ p.labelled cfg) (hvt : p.virtualThreads = 2)
    (hahead : y = p.wgtAt cfg (k + 1) ∨ y = p.inpAt cfg (k + 1))
    {σ : Memory cfg} (hσ : HoldsUops (p.uops cfg) σ) :
    M.exec (p.gemmAt cfg k).2 (M.exec y.2 σ) = M.exec y.2 (M.exec (p.gemmAt cfg k).2 σ) := by
  have hmem := snd_mem_insns hy
  rcases hahead with rfl | rfl
  · refine (h.commute_load_gemm hfit M hk hmem rfl (fun _ => ?_) (fun htype => ?_) hσ).symm
    · exact h.disjoint_wgt hvt k
    · cases htype
  · refine (h.commute_load_gemm hfit M hk hmem rfl (fun htype => ?_) (fun _ => ?_) hσ).symm
    · cases htype
    · exact h.disjoint_inp hvt k

/-- **What fires out of order may be swapped.** -/
theorem commute_of_reversed {t : List (GemmLabel × Insn)} {s : State Module DepQueue}
    (hrun : labelledNet.Run (p.labelled cfg) t s) (hs : labelledNet.Complete (p.labelled cfg) s)
    {x y : GemmLabel × Insn} (hxy : [x, y].Sublist (p.labelled cfg)) (hyx : [y, x].Sublist t)
    {σ : Memory cfg} (hσ : HoldsUops (p.uops cfg) σ) :
    M.exec x.2 (M.exec y.2 σ) = M.exec y.2 (M.exec x.2 σ) := by
  obtain ⟨hne, ⟨t₁, s₁, h₁, hx₁⟩, t₂, s₂, h₂, hy₂⟩ :=
    hrun.exists_of_reversed hs h.nodup_labelled hxy hyx
  have hx : x ∈ p.labelled cfg := hxy.subset List.mem_cons_self
  have hy : y ∈ p.labelled cfg := hxy.subset (List.mem_cons_of_mem x List.mem_cons_self)
  have hnot : ¬ [y, x].Sublist (p.labelled cfg) := not_sublist_reversed h.nodup_labelled hxy
  -- one case for each pair of modules
  cases hox : labelledNet.owner x with
  | load =>
      obtain ⟨m, hm, htype⟩ := h.transfer_of_load hx hox
      cases hoy : labelledNet.owner y with
      | load => exact absurd (hox.trans hoy.symm) hne
      | store =>
          obtain ⟨k, -, -, rfl⟩ := h.eq_of_owner_store hy hoy
          exact h.commute_transfers hfit M hx hy hm rfl (htype .out rfl) σ
      | compute =>
          rcases h.eq_of_owner_compute hy hoy with ⟨m', hm', htype'⟩ | rfl | ⟨k, hk, rfl⟩
          · exact h.commute_transfers hfit M hx hy hm hm' (htype _ (by
              rcases htype' with heq | heq <;> rw [heq] <;> rfl)) σ
          · exact (commute_finish M rfl _ σ).symm
          · exact absurd (h.gemm_pair_load hk h₁ hx hox hx₁) hnot
  | compute =>
      cases hoy : labelledNet.owner y with
      | compute => exact absurd (hox.trans hoy.symm) hne
      | load =>
          obtain ⟨m, hm, htype⟩ := h.transfer_of_load hy hoy
          rcases h.eq_of_owner_compute hx hox with ⟨m', hm', htype'⟩ | rfl | ⟨k, hk, rfl⟩
          · exact h.commute_transfers hfit M hx hy hm' hm (htype _ (by
              rcases htype' with heq | heq <;> rw [heq] <;> rfl)).symm σ
          · exact commute_finish M rfl _ σ
          · rcases h.load_pair_gemm hk h₂ hoy hy₂ with hpair | ⟨hvt, hahead⟩
            · exact absurd hpair hnot
            · exact h.commute_ahead hfit M hk hy hvt hahead hσ
      | store =>
          obtain ⟨k, hk, hlast, rfl⟩ := h.eq_of_owner_store hy hoy
          exact absurd (h.store_pair_compute hk hlast h₁ hx hox hx₁) hnot
  | store =>
      obtain ⟨k, hk, hlast, rfl⟩ := h.eq_of_owner_store hx hox
      cases hoy : labelledNet.owner y with
      | store => exact absurd (hox.trans hoy.symm) hne
      | load =>
          obtain ⟨m, hm, htype⟩ := h.transfer_of_load hy hoy
          exact h.commute_transfers hfit M hx hy rfl hm (htype .out rfl).symm σ
      | compute => exact absurd (h.compute_pair_store hk hlast h₂ hoy hy₂) hnot

/-- Nothing but the micro-op load writes the micro-op memory. -/
lemma keeps_uops {x : GemmLabel × Insn} (hx : x ∈ p.labelled cfg)
    (hne : x ≠ (.uop, .mem (p.uopInsn cfg))) {σ : Memory cfg} (hσ : HoldsUops (p.uops cfg) σ) :
    HoldsUops (p.uops cfg) (M.exec x.2 σ) := by
  have htransfer : ∀ m, x.2 = .mem m → m.memoryType ≠ .uop →
      HoldsUops (p.uops cfg) (M.exec x.2 σ) := by
    intro m hm htype
    have hmem := snd_mem_insns hx
    rw [hm] at hmem ⊢
    refine (Machine.respects_holdsUops
      (M.respects_mem [] (h.plain hmem) (h.onChip hfit hmem)) fun n hn => ?_).keeps σ hσ
    exact htype (mem_of_writes hn).symm
  rcases h.mem_labelled hx with rfl | rfl | ⟨k, hk, hstep⟩
  · exact absurd rfl hne
  · exact (Machine.respects_finish (M := M) rfl).keeps σ hσ
  · rcases (p.mem_stepBlock cfg).mp hstep with ⟨-, rfl⟩ | rfl | rfl | rfl | ⟨-, rfl⟩
    · exact htransfer _ rfl fun htype => nomatch htype
    · exact htransfer _ rfl fun htype => nomatch htype
    · exact htransfer _ rfl fun htype => nomatch htype
    · have hmem := snd_mem_insns hx
      exact (Machine.respects_gemm (M := M) (getGEMMInsn_opcode ..) (getGEMMInsn_resetReg ..)
        h.length_uops_le (h.gemm_uopEnd_le hmem) (h.gemm_onChip hfit hmem)).keeps σ hσ
    · exact htransfer _ rfl fun htype => nomatch htype

/-- The first instruction brings the micro-ops on chip. -/
lemma holdsUops_uopInsn {σ : Memory cfg} (huops : ∀ n, ∀ hn : n < (p.uops cfg).length,
    σ (.dram .uop n) = (p.uops cfg)[n]) :
    HoldsUops (p.uops cfg) (M.exec (.mem (p.uopInsn cfg)) σ) := by
  have hmem : .mem (p.uopInsn cfg) ∈ p.insns cfg := mem_insns.mpr (.inl rfl)
  intro n hn
  have hmove : (n, n) ∈ (p.uopInsn cfg).moves := by
    have hlt : n < p.uopSize cfg := h.length_uops_eq ▸ hn
    simp only [MemInsn.moves, MemInsn.slot, uopInsn, get1DLoadStoreInsn, List.mem_flatMap,
      List.mem_map, List.mem_range, Prod.mk.injEq]
    exact ⟨0, Nat.zero_lt_one, n, hlt, by omega, by omega⟩
  rw [← huops n hn]
  exact M.load_slot (p.uopInsn cfg) σ rfl (h.plain hmem) (h.onChip hfit hmem) _ hmove

/-- Every completed interleaving of the labelled stream has the effect of the program order. -/
theorem runAll_labelled {t : List (GemmLabel × Insn)} {s : State Module DepQueue}
    (hrun : labelledNet.Run (p.labelled cfg) t s) (hs : labelledNet.Complete (p.labelled cfg) s)
    {σ : Memory cfg} (huops : ∀ n, ∀ hn : n < (p.uops cfg).length,
      σ (.dram .uop n) = (p.uops cfg)[n]) :
    runAll (fun x => M.exec x.2) t σ = runAll (fun x => M.exec x.2) (p.labelled cfg) σ := by
  set u : GemmLabel × Insn := (.uop, .mem (p.uopInsn cfg)) with hu
  obtain ⟨rest, hrest⟩ : ∃ rest, p.labelled cfg = u :: rest := by
    rw [h.labelled_eq]
    exact ⟨_, rfl⟩
  have hnodup := h.nodup_labelled
  have hperm := hrun.perm_of_complete hs
  obtain ⟨t₁, t₂, rfl⟩ := List.append_of_mem (hperm.mem_iff.mpr (hrest ▸ List.mem_cons_self))
  have hperm' : (t₁ ++ t₂).Perm rest := by
    rw [hrest] at hperm
    exact (List.perm_middle.symm.trans hperm).cons_inv
  have hmem : ∀ x ∈ rest, x ∈ p.labelled cfg := fun x hx => hrest ▸ List.mem_cons_of_mem u hx
  -- what fires before the micro-ops are loaded does not touch the micro-op memory
  have hswap : ∀ y ∈ t₁, ∀ τ, True → M.exec u.2 (M.exec y.2 τ) = M.exec y.2 (M.exec u.2 τ) := by
    intro y hy τ _
    have hyrest : y ∈ rest := hperm'.subset (List.mem_append_left t₂ hy)
    have huy : [u, y].Sublist (p.labelled cfg) := by
      rw [hrest]
      exact (List.singleton_sublist.mpr hyrest).cons_cons u
    have hyu : [y, u].Sublist (t₁ ++ u :: t₂) :=
      (List.singleton_sublist.mpr hy).append (List.singleton_sublist.mpr List.mem_cons_self)
    obtain ⟨hne, -⟩ := hrun.exists_of_reversed hs hnodup huy hyu
    obtain ⟨m, hm, htype⟩ := h.transfer_of_not_compute (hmem y hyrest) (Ne.symm hne)
    have hulab : u ∈ p.labelled cfg := huy.subset List.mem_cons_self
    exact h.commute_transfers hfit M hulab (hmem y hyrest) rfl hm htype.symm τ
  have hfront : runAll (fun x => M.exec x.2) (t₁ ++ u :: t₂) σ
      = runAll (fun x => M.exec x.2) (t₁ ++ t₂) (M.exec u.2 σ) :=
    runAll_move_front (P := fun _ => True) t₂ (fun _ _ _ _ => trivial) hswap trivial
  rw [hfront, hrest, runAll_cons]
  refine runAll_eq_of_perm hperm' (P := HoldsUops (p.uops cfg)) (fun x hx τ hτ => ?_) ?_ ?_
  · exact h.keeps_uops hfit M (hmem x hx) (by
      rintro rfl
      exact (List.nodup_cons.mp (hrest ▸ hnodup)).1 hx) hτ
  · intro x y hxy hyx τ hτ
    refine h.commute_of_reversed hfit M hrun hs ?_ (hyx.trans ?_) hτ
    · rw [hrest]
      exact hxy.cons u
    · exact (List.Sublist.refl t₁).append (List.sublist_cons_self u t₂)
  · exact h.holdsUops_uopInsn hfit M huops

/-- The effect of any completed interleaving of the stream is that of the program order. -/
lemma runAll_insns {t : List Insn} {s : State Module DepQueue}
    (hrun : vtaNet.Run (p.insns cfg) t s) (hs : vtaNet.Complete (p.insns cfg) s) {σ : Memory cfg}
    (huops : ∀ n, ∀ hn : n < (p.uops cfg).length, σ (.dram .uop n) = (p.uops cfg)[n]) :
    runAll M.exec t σ = runAll M.exec (p.insns cfg) σ := by
  obtain ⟨u, rfl, hu⟩ := p.exists_labelled_run cfg hrun
  have hcomplete : labelledNet.Complete (p.labelled cfg) s := by
    intro m
    have hown : vtaNet.own m (p.insns cfg) = (labelledNet.own m (p.labelled cfg)).map Prod.snd := by
      simp only [insns, Net.own, List.filter_map]
      rfl
    rw [hs m, hown, List.length_map]
  rw [runAll_map, h.runAll_labelled hfit M hu hcomplete huops, insns, runAll_map]

end Swap

end Valid

end BlockedGemm

/-! ## The other two tests -/

/-- What a chain asks of two neighbours that are joined by a token. -/
lemma chained_cons {x y : Insn} {l : List Insn} {c d : DepQueue → ℕ} (q : DepQueue)
    (hx : vtaNet.owner x = vtaNet.producer q) (hy : vtaNet.owner y = vtaNet.consumer q)
    (hlt : c q < tokens vtaNet.pops q [x, y]) (hd : vtaNet.Replay c [x] d)
    (h : vtaNet.Chained d (y :: l)) : vtaNet.Chained c (x :: y :: l) := by
  cases hd with
  | cons enough rest =>
      cases rest
      exact ⟨fun _ => ⟨q, hx, hy, hlt⟩, h⟩

/-- Two neighbours of one module need no token. -/
lemma chained_cons_same {x y : Insn} {l : List Insn} {c d : DepQueue → ℕ}
    (hxy : vtaNet.owner x = vtaNet.owner y) (hd : vtaNet.Replay c [x] d)
    (h : vtaNet.Chained d (y :: l)) : vtaNet.Chained c (x :: y :: l) := by
  cases hd with
  | cons enough rest =>
      cases rest
      exact ⟨fun hne => absurd hxy hne, h⟩

/-- The stream of `gemm_test` is chained. -/
lemma GemmTest.chained (cfg : VtaConfig) (p : GemmTest) :
    vtaNet.Chained (queues 0 0 0 0) (p.insns cfg) := by
  refine chained_cons_same rfl (replay_compute ⟨false, false, false, false⟩ 0 0 0 0 rfl rfl) ?_
  refine chained_cons .g2l rfl rfl Nat.zero_lt_one
    (replay_compute ⟨false, false, true, false⟩ 0 0 0 0 rfl rfl) ?_
  refine chained_cons_same rfl (replay_load ⟨false, true, false, false⟩ 0 0 0 0 rfl rfl) ?_
  refine chained_cons .l2g rfl rfl ?_
    (replay_load ⟨false, false, false, true⟩ 0 0 0 0 rfl rfl) ?_
  · show 0 < _ + ((getGEMMInsn ..).dep.popPrevDep.toNat + 0)
    rw [getGEMMInsn_dep]
    exact Nat.zero_lt_succ _
  refine chained_cons .g2s rfl rfl Nat.zero_lt_one
    (replay_compute ⟨true, false, false, true⟩ 0 0 0 0 (getGEMMInsn_dep ..) rfl) ?_
  refine chained_cons .s2g rfl rfl Nat.zero_lt_one
    (replay_store ⟨true, false, true, false⟩ 0 0 0 0 rfl rfl) ?_
  trivial

namespace AluTest

variable (cfg : VtaConfig) (p : AluTest)

/-- The instructions of batch block `b`. -/
def batchBlock (b : ℕ) : List Insn :=
  [.mem (p.loadInsn cfg (b * cfg.vtaBatch)), .alu (p.aluInsn cfg (b * cfg.vtaBatch)),
    .mem (p.storeInsn cfg (b * cfg.vtaBatch))]

/-- A batch block and what the compute module does next are chained. -/
lemma chained_batchBlock (b : ℕ) {y : Insn} (hy : y.module = .compute)
    (hpop : y.dep.popNextDep = true) :
    vtaNet.Chained (before b) (p.batchBlock cfg b ++ [y]) := by
  have hreplay := replay_block cfg p b
  obtain ⟨c₁, h₁, hrest⟩ :=
    Net.Replay.append_split (l := [Insn.mem (p.loadInsn cfg (b * cfg.vtaBatch))]) hreplay
  obtain ⟨c₂, h₂, h₃⟩ :=
    Net.Replay.append_split (l := [Insn.alu (p.aluInsn cfg (b * cfg.vtaBatch))]) hrest
  -- the queues a block leaves behind empty
  have hempty : c₁ .g2s = 0 ∧ c₂ .s2g = 0 := by
    have hg2s := h₁.tokens_eq .g2s
    have hs2g := h₃.tokens_eq .s2g
    simp only [tokens_cons, tokens_nil] at hg2s hs2g
    have hbefore : before b .g2s = 0 := rfl
    have hafter : before (b + 1) .s2g = 1 := by simp [before, queues]
    have hpush : vtaNet.pushes (Insn.mem (p.loadInsn cfg (b * cfg.vtaBatch))) .g2s = 0 := rfl
    have hpops : vtaNet.pops (Insn.mem (p.loadInsn cfg (b * cfg.vtaBatch))) .g2s = 0 := rfl
    have hpush' : vtaNet.pushes (Insn.mem (p.storeInsn cfg (b * cfg.vtaBatch))) .s2g = 1 := rfl
    have hpops' : vtaNet.pops (Insn.mem (p.storeInsn cfg (b * cfg.vtaBatch))) .s2g = 0 := rfl
    omega
  have hpopy : vtaNet.pops y .s2g = 1 := by
    simp [vtaNet, Insn.pops, hy, hpop]
  have hpops : vtaNet.pops (Insn.mem (p.storeInsn cfg (b * cfg.vtaBatch))) .g2s = 1 := rfl
  refine chained_cons_same rfl h₁
    (chained_cons .g2s rfl rfl ?_ h₂ (chained_cons .s2g rfl hy ?_ h₃ ?_))
  · simp only [tokens_cons, hempty.1, hpops]
    omega
  · simp only [tokens_cons, hempty.2, hpopy]
    omega
  · trivial

/-- The batch blocks from block `b` on, and the end, are chained. -/
lemma chained_from :
    ∀ n b, vtaNet.Chained (before b)
      ((List.range n).flatMap (fun i => p.batchBlock cfg (b + i)) ++ [.gem (getFinishInsn false true)])
  | 0, b => trivial
  | n + 1, b => by
      have ih := chained_from n (b + 1)
      have hblocks : (List.range (n + 1)).flatMap (fun i => p.batchBlock cfg (b + i))
          = p.batchBlock cfg b ++ (List.range n).flatMap fun i => p.batchBlock cfg (b + 1 + i) := by
        rw [List.range_succ_eq_map, List.flatMap_cons, List.flatMap_map]
        simp only [Nat.add_zero, Nat.succ_eq_add_one, Nat.add_assoc, Nat.add_comm 1]
      rw [hblocks, List.append_assoc]
      -- the next instruction is a later bias load, or the end
      cases n with
      | zero =>
          exact (p.chained_batchBlock cfg b rfl rfl).append (replay_block cfg p b) ih
      | succ n =>
          rw [List.range_succ_eq_map, List.flatMap_cons] at ih ⊢
          refine (p.chained_batchBlock cfg b (y := .mem (p.loadInsn cfg ((b + 1) * cfg.vtaBatch)))
            rfl ?_).append (replay_block cfg p b) ih
          show decide ((b + 1) * cfg.vtaBatch > 0) = true
          simp [cfg.vtaBatch_pos]

/-- The stream of `alu_test` is chained. -/
lemma chained (h : p.Asserts cfg) : vtaNet.Chained (queues 0 0 0 0) (p.insns cfg) := by
  obtain ⟨n, hn⟩ := Nat.dvd_of_mod_eq_zero h.batch_mod
  have hloop : upTo p.batch cfg.vtaBatch = (List.range n).map (· * cfg.vtaBatch) := by
    rw [hn, Nat.mul_comm]
    exact upTo_mul cfg.vtaBatch_pos
  have hblocks := p.chained_from cfg n 0
  simp only [Nat.zero_add] at hblocks
  have hbefore : before 0 = queues 0 0 0 0 := rfl
  rw [hbefore] at hblocks
  rw [insns, hloop, List.flatMap_map, List.append_assoc]
  cases n with
  | zero =>
      exact chained_cons_same rfl
        (replay_compute ⟨false, false, false, false⟩ 0 0 0 0 rfl rfl) hblocks
  | succ n =>
      rw [List.range_succ_eq_map, List.flatMap_cons] at hblocks ⊢
      exact chained_cons_same rfl
        (replay_compute ⟨false, false, false, false⟩ 0 0 0 0 rfl rfl) hblocks

end AluTest

section ProgramOrder

variable {cfg : VtaConfig} {t : List Insn} {s : State Module DepQueue}

lemma GemmTest.prefix_of_run {p : GemmTest} (hrun : vtaNet.Run (p.insns cfg) t s) :
    t <+: p.insns cfg := by
  have hreplay := p.replay cfg
  have hchained := p.chained cfg
  rw [queues_zero] at hreplay hchained
  exact hrun.prefix_of_chained hreplay hchained

lemma AluTest.prefix_of_run {p : AluTest} (hbatch : 0 < p.batch) (h : p.Asserts cfg)
    (hrun : vtaNet.Run (p.insns cfg) t s) : t <+: p.insns cfg := by
  have hreplay := p.replay cfg hbatch h
  have hchained := p.chained cfg h
  rw [queues_zero] at hreplay hchained
  exact hrun.prefix_of_chained hreplay hchained

end ProgramOrder

/-- **`alu_test` and `gemm_test` have no concurrency**: whatever the modules do, they fire the
instructions in the order of the buffer. -/
theorem programOrder_only {cfg : VtaConfig} {prog t : List Insn} {s : State Module DepQueue}
    (hprog : (∃ p : AluTest, 0 < p.batch ∧ p.Asserts cfg ∧ prog = p.insns cfg) ∨
      ∃ p : GemmTest, prog = p.insns cfg)
    (hrun : vtaNet.Run prog t s) : t <+: prog := by
  rcases hprog with ⟨p, hbatch, h, rfl⟩ | ⟨p, rfl⟩
  · exact AluTest.prefix_of_run hbatch h hrun
  · exact GemmTest.prefix_of_run hrun

/-- The first micro-op load of an addition of two vectors. -/
theorem programOrder_only_add :
    [Insn.mem (get1DLoadStoreInsn .load .uop 0 0 1 ⟨false, false, false, false⟩)]
      <+: (AluTest.mk .add false 1 16 true fun _ => 0).insns config16 :=
  programOrder_only (s := vtaNet.fire .start (.mem (get1DLoadStoreInsn .load .uop 0 0 1
      ⟨false, false, false, false⟩)))
    (.inl ⟨AluTest.mk .add false 1 16 true fun _ => 0, by decide, by constructor <;> decide, rfl⟩)
    (.snoc (m := .compute) .nil rfl fun q => by cases q <;> exact le_rfl)

end ThreeLaSim
