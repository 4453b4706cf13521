import ThreeLaSim.Vta.Serializable
import ThreeLaSim.Vta.UnpackBuffer

/-!
# Packed operands on the machine

What the GEMM tests need of `Machine`, `packBuffer` and `unpackBuffer` together, one instruction at a
time: the blocks of a packed buffer are the blocks of the matrix, `unpackBuffer` reads blocks back,
and a GEMM over the blocks of two tiles adds the product of the tiles.

* `bufferBlock`, `matrixBlock` — a block of a buffer, and of a matrix.
* **`gemmAcc_tile`** — what a GEMM over the blocks of two tiles adds to an accumulator.
* `GemmPrepared` — DRAM holds the operands of a matrix product.
-/

namespace ThreeLaSim

open TokenNet LoopNest Footprint BitFields

/-! ## Packed buffers as the machine sees them -/

/-- Block `b` of a packed buffer, by row and column. -/
def bufferBlock (W D yBlock xBlock : ℕ) (buf : List ℕ) (b : ℕ) (r : Fin yBlock) (c : Fin xBlock) :
    BitVec W :=
  .ofNat W (packedElem W (D / W) buf (b * (yBlock * xBlock) + (r * xBlock + c)))

/-- Block `(y, x)` of a matrix in blocks of `h` rows and `w` columns. -/
def matrixBlock {W : ℕ} (h w : ℕ) (src : ℕ → ℕ → BitVec W) (y x : ℕ) (r : Fin h) (c : Fin w) :
    BitVec W := src (y * h + r) (x * w + c)

/-- An entry survives being packed. -/
lemma ofNat_toInt_emod {W : ℕ} (v : BitVec W) : BitVec.ofNat W (v.toInt % 2 ^ W).toNat = v := by
  refine BitVec.eq_of_toInt_eq ?_
  rw [← BitVec.ofInt_natCast, Int.toNat_of_nonneg (Int.emod_nonneg _ (by positivity)),
    BitVec.toInt_ofInt]
  have hpow : (2 : ℤ) ^ W = ((2 ^ W : ℕ) : ℤ) := by push_cast; rfl
  rw [hpow, Int.emod_bmod, ← BitVec.toInt_ofInt, BitVec.ofInt_toInt]

namespace PackAsserts

variable {W D yBlock xBlock : ℕ} (h : PackAsserts W D yBlock xBlock) (hyBlock : 0 < yBlock)
  (hxBlock : 0 < xBlock)
include h hyBlock hxBlock

/-- The number of words of a packed matrix. -/
lemma length_packBuffer (src : ℕ → ℕ → ℤ) {ySize xSize : ℕ} (hy : yBlock ∣ ySize)
    (hx : xBlock ∣ xSize) : (packBuffer W D src ySize xSize yBlock xBlock).length
      = ySize / yBlock * (xSize / xBlock) * (yBlock * xBlock) / (D / W) := by
  obtain ⟨m, rfl⟩ := exists_eq_mul_left_of_dvd hy
  obtain ⟨n, rfl⟩ := exists_eq_mul_left_of_dvd hx
  rw [h.packBuffer_blocks hyBlock hxBlock, packedWords, List.length_map, List.length_range,
    Nat.mul_div_cancel m hyBlock, Nat.mul_div_cancel n hxBlock]

/-- A block of a packed matrix is the block of the matrix. -/
lemma bufferBlock_packBuffer (src : ℕ → ℕ → BitVec W) {ySize xSize : ℕ} (hy : yBlock ∣ ySize)
    (hx : xBlock ∣ xSize) {i j : ℕ} (hi : i < ySize / yBlock) (hj : j < xSize / xBlock) :
    bufferBlock W D yBlock xBlock
      (packBuffer W D (fun y x => (src y x).toInt) ySize xSize yBlock xBlock)
      (i * (xSize / xBlock) + j) = matrixBlock yBlock xBlock src i j := by
  funext r c
  obtain ⟨m, rfl⟩ := exists_eq_mul_left_of_dvd hy
  obtain ⟨n, rfl⟩ := exists_eq_mul_left_of_dvd hx
  rw [Nat.mul_div_cancel m hyBlock] at hi
  rw [Nat.mul_div_cancel n hxBlock] at hj ⊢
  have hdvd : D / W ∣ m * n * (yBlock * xBlock) := h.ratio_dvd.trans (Nat.dvd_mul_left _ _)
  have hlt : (i * n + j) * (yBlock * xBlock) + (r * xBlock + c) < m * n * (yBlock * xBlock) :=
    mul_add_lt (mul_add_lt hi hj) (mul_add_lt r.isLt c.isLt)
  obtain ⟨hrow, hcol⟩ := blockRow_blockCol_mk (i := i) hj r.isLt c.isLt
  rw [bufferBlock, h.packBuffer_blocks hyBlock hxBlock, h.packedElem_packedWords _ hlt hdvd,
    turnElem, hrow, hcol, ofNat_toInt_emod, matrixBlock]

end PackAsserts

/-! ## Reading the outputs back -/

section Prefix

variable {W D : ℕ} {src src' : List ℕ} (hsrc : src' <+: src)
include hsrc

/-- A turn that stays in the beginning of a buffer does not see the rest. -/
lemma unpackStep_of_prefix {st st' : UnpackState} {blockIdx row col : ℕ}
    (h : unpackStep W D src' st blockIdx row col = some st') :
    unpackStep W D src st blockIdx row col = some st' := by
  simp only [unpackStep, Option.bind_eq_bind, Option.bind_eq_some_iff] at h ⊢
  obtain ⟨word, hword, h⟩ := h
  obtain ⟨hlt, heq⟩ := List.getElem?_eq_some_iff.mp hword
  exact ⟨word, by rw [← heq, List.getElem?_eq_some_iff]; exact ⟨_, (hsrc.getElem hlt).symm⟩, h⟩

/-- Nor does the whole loop. -/
lemma unpackCells_of_prefix {cells : List (ℕ × ℕ × ℕ)} :
    ∀ {st st' : UnpackState}, unpackCells W D src' st cells = some st' →
      unpackCells W D src st cells = some st' := by
  induction cells with
  | nil => exact fun h => h
  | cons c cells ih =>
      intro st st' h
      rw [unpackCells, List.foldlM_cons, Option.bind_eq_bind, Option.bind_eq_some_iff] at h ⊢
      obtain ⟨st₁, h₁, h₂⟩ := h
      exact ⟨st₁, unpackStep_of_prefix hsrc h₁, ih h₂⟩

end Prefix

/-- **What `unpackBuffer` reads** from a buffer that is long enough: entry by entry, the blocks of
the buffer. -/
lemma PackAsserts.unpackBuffer_bufferBlock {W D yBlock xBlock : ℕ}
    (h : PackAsserts W D yBlock xBlock) (hyBlock : 0 < yBlock) (hxBlock : 0 < xBlock)
    {ySize xSize : ℕ} (hy : yBlock ∣ ySize) (hx : xBlock ∣ xSize) {buf : List ℕ}
    (hlen : ySize / yBlock * (xSize / xBlock) * wordsPerBlock W D yBlock xBlock ≤ buf.length)
    (dst : ℕ → ℕ → ℕ) :
    ∃ out, unpackBuffer W D dst buf ySize xSize yBlock xBlock = some out ∧
      ∀ y x, y < ySize → x < xSize → BitVec.ofNat W (out y x)
        = bufferBlock W D yBlock xBlock buf (y / yBlock * (xSize / xBlock) + x / xBlock)
            ⟨y % yBlock, Nat.mod_lt y hyBlock⟩ ⟨x % xBlock, Nat.mod_lt x hxBlock⟩ := by
  obtain ⟨m, rfl⟩ := exists_eq_mul_left_of_dvd hy
  obtain ⟨n, rfl⟩ := exists_eq_mul_left_of_dvd hx
  rw [Nat.mul_div_cancel m hyBlock, Nat.mul_div_cancel n hxBlock] at hlen
  rw [Nat.mul_div_cancel n hxBlock]
  have hwords : m * n * wordsPerBlock W D yBlock xBlock = m * n * (yBlock * xBlock) / (D / W) :=
    (Nat.mul_div_assoc _ h.ratio_dvd).symm
  rw [hwords] at hlen
  -- the words of the matrix are a beginning of the buffer
  set words := buf.take (m * n * (yBlock * xBlock) / (D / W)) with hdef
  have hlen' : words.length = m * n * (yBlock * xBlock) / (D / W) := by
    rw [hdef, List.length_take, Nat.min_eq_left hlen]
  have hunpack := h.unpackBuffer_blocks hyBlock hxBlock m n dst hlen'
  obtain ⟨st, hst, hout⟩ := Option.map_eq_some_iff.mp hunpack
  refine ⟨st.dst, ?_, ?_⟩
  · rw [unpackBuffer, unpackCells_of_prefix (List.take_prefix _ _) hst]
    rfl
  · intro y x hyy hxx
    obtain ⟨-, -, hpos⟩ := blockRow_blockCol_blockPos hyy hxx
    have hidx : blockPos yBlock xBlock n y x / (D / W) < m * n * (yBlock * xBlock) / (D / W) :=
      Nat.div_lt_div_of_lt_of_dvd (h.ratio_dvd.trans (Nat.dvd_mul_left _ _)) hpos
    have hword : words.getD (blockPos yBlock xBlock n y x / (D / W)) 0
        = buf.getD (blockPos yBlock xBlock n y x / (D / W)) 0 := by
      rw [List.getD_eq_getElem?_getD, List.getD_eq_getElem?_getD, hdef, List.getElem?_take_of_lt hidx]
    rw [hout]
    simp only [hyy, hxx, hpos, and_self, if_true, packedElem, hword]
    rfl

/-! ## A GEMM over the blocks of two tiles -/

/-- The products of a list of blocks. -/
lemma dotProduct_flatten (blocks : List (List (BitVec 8 × BitVec 8))) :
    dotProduct blocks.flatten = (blocks.map dotProduct).sum := by
  induction blocks with
  | nil => rfl
  | cons b blocks ih =>
      rw [List.flatten_cons, List.map_cons, List.sum_cons, ← ih]
      simp [dotProduct]

lemma dotProduct_append (l l' : List (BitVec 8 × BitVec 8)) :
    dotProduct (l ++ l') = dotProduct l + dotProduct l' := by
  simp [dotProduct]

/-- The triples of a tile product that name one accumulator slot. -/
lemma filter_tileTriples {batch inFeat outFeat : ℕ} (f : ℕ × ℕ × ℕ → Uop)
    (hf : ∀ r c x, (f (r, c, x)).dstIdx = r * outFeat + c) {r c : ℕ} (hr : r < batch)
    (hc : c < outFeat) :
    ((tileTriples batch inFeat outFeat).map f).filter (fun u => u.dstIdx = r * outFeat + c)
      = (List.range inFeat).map fun x => f (r, c, x) := by
  -- a block of triples has all its slots in one place
  have hblock : ∀ z, ((List.range inFeat).map fun x => f (z / outFeat, z % outFeat, x)).filter
      (fun u => u.dstIdx = r * outFeat + c)
        = if z = r * outFeat + c then (List.range inFeat).map fun x => f (r, c, x) else [] := by
    intro z
    split_ifs with hz
    · obtain ⟨hdiv, hmod⟩ := mul_add_div_mod (a := r) hc
      rw [hz, hdiv, hmod]
      exact List.filter_eq_self.mpr fun u hu => by
        obtain ⟨x, -, rfl⟩ := List.mem_map.mp hu
        exact decide_eq_true (hf r c x)
    · refine List.filter_eq_nil_iff.mpr fun u hu => ?_
      obtain ⟨x, -, rfl⟩ := List.mem_map.mp hu
      rw [decide_eq_true_eq, hf, Nat.div_add_mod']
      exact hz
  have honly : ∀ (n k : ℕ) (l : List Uop), k < n →
      (List.range n).flatMap (fun z => if z = k then l else []) = l := by
    intro n k l hk
    induction n with
    | zero => exact absurd hk (Nat.not_lt_zero k)
    | succ n ih =>
        rw [List.range_succ, List.flatMap_append, List.flatMap_singleton]
        rcases Nat.lt_or_eq_of_le (Nat.le_of_lt_succ hk) with hlt | rfl
        · rw [ih hlt, if_neg hlt.ne', List.append_nil]
        · have hnil : (List.range k).flatMap (fun z => if z = k then l else []) = [] :=
            List.flatMap_eq_nil_iff.mpr fun z hz => if_neg (List.mem_range.mp hz).ne
          rw [hnil, if_pos rfl, List.nil_append]
  rw [map_tileTriples, flatMap_range_mul, List.filter_flatMap]
  simp only [hblock]
  exact honly _ _ _ (mul_add_lt hr hc)

/-- A row of blocks as one row. -/
lemma flatten_blocks (f : ℕ → BitVec 8 × BitVec 8) (n m : ℕ) :
    ((List.range n).map fun x => (List.finRange m).map fun k : Fin m => f (x * m + k)).flatten
      = (List.range (n * m)).map f := by
  have hblock : ∀ x, ((List.finRange m).map fun k : Fin m => f (x * m + k))
      = (List.range m).map fun k => f (x * m + k) := by
    intro x
    exact List.ext_getElem (by simp) (by simp)
  simp only [hblock]
  rw [← List.flatMap_def, flatMap_range_map]
  refine List.map_congr_left fun z _ => ?_
  rw [Nat.div_add_mod']

section Tile

variable {cfg : VtaConfig} {σ : Memory cfg} {us : List Uop} {batch inFeat outFeat : ℕ}
  (inpSlot wgtSlot : ℕ → ℕ → ℕ) {inputs weights : ℕ → ℕ → BitVec 8}

/-- **A GEMM over two tiles adds their product**: where the input slots hold the blocks of one tile
and the weight slots those of another, the accumulator of output block `(r, c)` gets the products of
the rows, over all inner columns. -/
theorem gemmAcc_tile (hblock : cfg.vtaBlockIn ≤ 63)
    (hus : us.Perm ((tileTriples batch inFeat outFeat).map fun (r, c, x) =>
      ⟨r * outFeat + c, inpSlot r x, wgtSlot c x⟩))
    (hinp : ∀ r x, r < batch → x < inFeat → σ (.sram .inp (inpSlot r x))
      = matrixBlock _ _ inputs r x)
    (hwgt : ∀ c x, c < outFeat → x < inFeat → σ (.sram .wgt (wgtSlot c x))
      = matrixBlock _ _ weights c x)
    {r c : ℕ} (hr : r < batch) (hc : c < outFeat) (b : Fin cfg.vtaBatch) (o : Fin cfg.vtaBlockOut) :
    gemmAcc σ us (r * outFeat + c) b o = σ (.sram .acc (r * outFeat + c)) b o + .ofInt 32
      (dotProduct ((List.range (inFeat * cfg.vtaBlockIn)).map fun z =>
        (weights (c * cfg.vtaBlockOut + o) z, inputs (r * cfg.vtaBatch + b) z))) := by
  have hlen : ∀ pairs ∈ ((us.filter fun u => u.dstIdx = r * outFeat + c).map fun u =>
      macPairs σ u b o), pairs.length ≤ 63 := by
    intro pairs hpairs
    obtain ⟨u, -, rfl⟩ := List.mem_map.mp hpairs
    rwa [macPairs, List.length_map, List.length_finRange]
  -- the triples of the slot, in the order of the inner blocks
  have hslot := hus.filter fun u => u.dstIdx = r * outFeat + c
  rw [filter_tileTriples _ (fun _ _ _ => rfl) hr hc] at hslot
  have hblocks : ((List.range inFeat).map fun x =>
      (⟨r * outFeat + c, inpSlot r x, wgtSlot c x⟩ : Uop)).map (fun u => macPairs σ u b o)
        = (List.range inFeat).map fun x =>
          (List.finRange cfg.vtaBlockIn).map fun k : Fin cfg.vtaBlockIn =>
            (weights (c * cfg.vtaBlockOut + o) (x * cfg.vtaBlockIn + k),
              inputs (r * cfg.vtaBatch + b) (x * cfg.vtaBlockIn + k)) := by
    rw [List.map_map]
    refine List.map_congr_left fun x hx => ?_
    have hx := List.mem_range.mp hx
    simp only [Function.comp, macPairs, hinp r x hr hx, hwgt c x hc hx, matrixBlock]
  rw [gemmAcc, accumulate_eq _ hlen, dotProduct_flatten]
  rw [((hslot.map _).map dotProduct).sum_eq, hblocks, ← dotProduct_flatten,
    flatten_blocks fun z =>
      (weights (c * cfg.vtaBlockOut + o) z, inputs (r * cfg.vtaBatch + b) z)]

/-- Every accumulator slot of the tile is written. -/
lemma exists_dst (hus : us.Perm ((tileTriples batch inFeat outFeat).map fun (r, c, x) =>
      ⟨r * outFeat + c, inpSlot r x, wgtSlot c x⟩)) (hin : 0 < inFeat) {r c : ℕ} (hr : r < batch)
    (hc : c < outFeat) : ∃ u ∈ us, u.dstIdx = r * outFeat + c := by
  have hmem : (r, c, 0) ∈ tileTriples batch inFeat outFeat :=
    BlockedGemm.mem_tileTriples.mpr ⟨hr, hc, hin⟩
  exact ⟨⟨r * outFeat + c, inpSlot r 0, wgtSlot c 0⟩,
    hus.mem_iff.mpr (List.mem_map.mpr ⟨(r, c, 0), hmem, rfl⟩), rfl⟩

end Tile

/-! ## Single transfers -/

lemma MemInsn.mem_moves (m : MemInsn) {y x : ℕ} (hy : y < m.ySize) (hx : x < m.xSize) :
    (m.slot y x, m.dramBase + y * m.xStride + x) ∈ m.moves := by
  simp only [moves, List.mem_flatMap, List.mem_map, List.mem_range]
  exact ⟨y, hy, x, hx, rfl⟩

namespace Machine

variable {cfg : VtaConfig} (M : Machine cfg) {m : MemInsn} (hp : m.Plain) (hc : m.OnChip cfg)
  (σ : Memory cfg)
include hp hc

/-- A transfer leaves the other memories alone. -/
lemma exec_of_mem_ne {l : Loc} (hl : l.mem ≠ m.memoryType) : M.exec (.mem m) σ l = σ l :=
  (M.respects_mem [] hp hc).frame σ trivial l fun hw => hl (mem_of_writes hw)

/-- A load leaves DRAM alone. -/
lemma exec_load_dram (hop : m.opcode = .load) (mem : MemId) (b : ℕ) :
    M.exec (.mem m) σ (.dram mem b) = σ (.dram mem b) :=
  M.load_frame m σ hop hp hc _ fun _ _ heq => nomatch heq

/-- A store leaves the chip alone. -/
lemma exec_store_sram (hop : m.opcode = .store) (mem : MemId) (a : ℕ) :
    M.exec (.mem m) σ (.sram mem a) = σ (.sram mem a) :=
  M.store_frame m σ hop hp hc _ fun _ _ heq => nomatch heq

/-- A load whose rectangle starts at row `i`, column `j` of a matrix of blocks. -/
lemma exec_load_slot (hop : m.opcode = .load) {i j : ℕ} (hbase : m.dramBase = i * m.xStride + j)
    {y x : ℕ} (hy : y < m.ySize) (hx : x < m.xSize) :
    M.exec (.mem m) σ (.sram m.memoryType (m.slot y x))
      = σ (.dram m.memoryType ((i + y) * m.xStride + (j + x))) := by
  have hblock : (i + y) * m.xStride + (j + x) = m.dramBase + y * m.xStride + x := by
    rw [hbase]
    ring
  rw [hblock]
  exact M.load_slot m σ hop hp hc _ (m.mem_moves hy hx)

/-- A store whose rectangle starts at row `i`, column `j` of a matrix of blocks. -/
lemma exec_store_block (hop : m.opcode = .store) {i j : ℕ} (hbase : m.dramBase = i * m.xStride + j)
    {y x : ℕ} (hy : y < m.ySize) (hx : x < m.xSize) :
    M.exec (.mem m) σ (.dram m.memoryType ((i + y) * m.xStride + (j + x)))
      = σ (.sram m.memoryType (m.slot y x)) := by
  have hblock : (i + y) * m.xStride + (j + x) = m.dramBase + y * m.xStride + x := by
    rw [hbase]
    ring
  rw [hblock]
  exact M.store_block m σ hop hp hc _ (m.mem_moves hy hx)

/-- A store does not touch the blocks outside its rectangle. -/
lemma exec_store_of_outside (hop : m.opcode = .store) {i j : ℕ}
    (hbase : m.dramBase = i * m.xStride + j) (hj : j + m.xSize ≤ m.xStride) {y x : ℕ}
    (hx : x < m.xStride)
    (hout : ¬ ((i ≤ y ∧ y < i + m.ySize) ∧ j ≤ x ∧ x < j + m.xSize)) :
    M.exec (.mem m) σ (.dram m.memoryType (y * m.xStride + x))
      = σ (.dram m.memoryType (y * m.xStride + x)) := by
  refine M.store_frame m σ hop hp hc _ fun mv hmv heq => hout ?_
  simp only [MemInsn.moves, List.mem_flatMap, List.mem_map, List.mem_range] at hmv
  obtain ⟨y', hy', x', hx', rfl⟩ := hmv
  have hblock : y * m.xStride + x = (i + y') * m.xStride + (j + x') := by
    rw [(Loc.dram.inj heq).2, hbase]
    ring
  obtain ⟨hdiv, hmod⟩ := mul_add_div_mod (a := y) hx
  obtain ⟨hdiv', hmod'⟩ := mul_add_div_mod (a := i + y') (b := j + x') (c := m.xStride) (by omega)
  rw [hblock] at hdiv hmod
  omega

end Machine

/-! ## Rows of blocks -/

/-- The moves of a transfer of one row of `n` blocks, which `get2DLoadStoreInsn` builds as well. -/
lemma moves_row (opcode : MemOpcode) (type : MemId) (base n : ℕ) (dep : DepFlags) :
    (get1DLoadStoreInsn opcode type 0 base n dep).moves = (List.range n).map fun x => (x, base + x) := by
  simp [MemInsn.moves, MemInsn.slot, get1DLoadStoreInsn]

section Row

variable {cfg : VtaConfig} (M : Machine cfg) (opcode : MemOpcode) (type : MemId) (base : ℕ) {n : ℕ}
  (dep : DepFlags)

lemma plain_row (n : ℕ) : (get1DLoadStoreInsn opcode type 0 base n dep).Plain :=
  ⟨rfl, rfl, rfl, rfl, le_rfl⟩

lemma onChip_row (hn : n ≤ cfg.depth type) :
    (get1DLoadStoreInsn opcode type 0 base n dep).OnChip cfg := by
  intro mv hmv
  rw [moves_row] at hmv
  obtain ⟨x, hx, rfl⟩ := List.mem_map.mp hmv
  exact (List.mem_range.mp hx).trans_le hn

variable (hn : n ≤ cfg.depth type) (σ : Memory cfg)
include hn

namespace Machine

/-- A row brought on chip. -/
lemma exec_loadRow {x : ℕ} (hx : x < n) :
    M.exec (.mem (get1DLoadStoreInsn .load type 0 base n dep)) σ (.sram type x)
      = σ (.dram type (base + x)) := by
  have hmv : (x, base + x) ∈ (get1DLoadStoreInsn .load type 0 base n dep).moves := by
    rw [moves_row]
    exact List.mem_map_of_mem (List.mem_range.mpr hx)
  exact M.load_slot _ σ rfl (plain_row ..) (onChip_row _ _ _ _ hn) _ hmv

/-- A row brought out. -/
lemma exec_storeRow {x : ℕ} (hx : x < n) :
    M.exec (.mem (get1DLoadStoreInsn .store type 0 base n dep)) σ (.dram type (base + x))
      = σ (.sram type x) := by
  have hmv : (x, base + x) ∈ (get1DLoadStoreInsn .store type 0 base n dep).moves := by
    rw [moves_row]
    exact List.mem_map_of_mem (List.mem_range.mpr hx)
  exact M.store_block _ σ rfl (plain_row ..) (onChip_row _ _ _ _ hn) _ hmv

/-- The blocks before a row that is brought out. -/
lemma exec_storeRow_of_lt {b : ℕ} (hb : b < base) :
    M.exec (.mem (get1DLoadStoreInsn .store type 0 base n dep)) σ (.dram type b)
      = σ (.dram type b) := by
  refine M.store_frame _ σ rfl (plain_row ..) (onChip_row _ _ _ _ hn) _ fun mv hmv heq => ?_
  rw [moves_row] at hmv
  obtain ⟨x, -, rfl⟩ := List.mem_map.mp hmv
  have := (Loc.dram.inj heq).2
  omega

omit hn in
/-- Loads of rows into different memories: each row comes from DRAM, and DRAM stays as it is. -/
lemma runAll_loadRows {rows : List (MemId × ℕ × DepFlags)} (hnodup : (rows.map Prod.fst).Nodup)
    (hdepth : ∀ row ∈ rows, row.2.1 ≤ cfg.depth row.1) {τ : Memory cfg}
    (hτ : τ = runAll M.exec
      (rows.map fun row => .mem (get1DLoadStoreInsn .load row.1 0 0 row.2.1 row.2.2)) σ) :
    (∀ mem b, τ (.dram mem b) = σ (.dram mem b)) ∧
    (∀ row ∈ rows, ∀ x < row.2.1, τ (.sram row.1 x) = σ (.dram row.1 x)) ∧
    ∀ mem ∉ rows.map Prod.fst, ∀ a, τ (.sram mem a) = σ (.sram mem a) := by
  subst hτ
  induction rows generalizing σ with
  | nil => exact ⟨fun _ _ => rfl, nofun, fun _ _ _ => rfl⟩
  | cons row rows ih =>
      obtain ⟨hrow, hnodup⟩ := List.nodup_cons.mp hnodup
      have hn := hdepth row List.mem_cons_self
      obtain ⟨hdram, hloaded, hkept⟩ :=
        ih (M.exec (.mem (get1DLoadStoreInsn .load row.1 0 0 row.2.1 row.2.2)) σ) hnodup
          fun row' hrow' => hdepth row' (List.mem_cons_of_mem row hrow')
      have hplain := plain_row .load row.1 0 row.2.2 row.2.1
      have hchip := onChip_row .load row.1 0 row.2.2 hn
      have hdram₁ := M.exec_load_dram hplain hchip σ rfl
      rw [List.map_cons, runAll_cons]
      refine ⟨fun mem b => (hdram mem b).trans (hdram₁ mem b), fun row' hrow' x hx => ?_,
        fun mem hmem a => ?_⟩
      · rcases List.mem_cons.mp hrow' with rfl | hrow'
        · rw [hkept _ hrow, M.exec_loadRow _ _ _ hn σ hx, Nat.zero_add]
        · exact (hloaded row' hrow' x hx).trans (hdram₁ _ _)
      · rw [List.map_cons, List.mem_cons, not_or] at hmem
        exact (hkept mem hmem.2 a).trans
          (M.exec_of_mem_ne hplain hchip σ (l := .sram mem a) hmem.1)

end Machine

end Row

/-! ## The operands of a matrix product -/

/-- The block shapes fill whole words, as `packBuffer` asserts. -/
structure PackConfig (cfg : VtaConfig) : Prop where
  inp : PackAsserts 8 32 cfg.vtaBatch cfg.vtaBlockIn
  wgt : PackAsserts 8 32 cfg.vtaBlockOut cfg.vtaBlockIn
  acc : PackAsserts 32 32 cfg.vtaBatch cfg.vtaBlockOut
  out : PackAsserts 8 32 cfg.vtaBatch cfg.vtaBlockOut

lemma packConfig16 : PackConfig config16 := by
  constructor <;> constructor <;> decide

/-- A memory in which DRAM holds the micro-ops and the packed operands. -/
structure GemmPrepared (cfg : VtaConfig) (batch inFeat outFeat : ℕ) (uops : List Uop)
    (inputs weights : ℕ → ℕ → BitVec 8) (biases : ℕ → ℕ → BitVec 32) (σ : Memory cfg) : Prop where
  uop : ∀ n, ∀ hn : n < uops.length, σ (.dram .uop n) = uops[n]
  inp : ∀ b < batch / cfg.vtaBatch * inFeat / cfg.vtaBlockIn, σ (.dram .inp b) =
    bufferBlock 8 32 _ _ (packBuffer 8 32 (fun y x => (inputs y x).toInt) batch inFeat
      cfg.vtaBatch cfg.vtaBlockIn) b
  wgt : ∀ b < inFeat / cfg.vtaBlockIn * outFeat / cfg.vtaBlockOut, σ (.dram .wgt b) =
    bufferBlock 8 32 _ _ (packBuffer 8 32 (fun y x => (weights y x).toInt) outFeat inFeat
      cfg.vtaBlockOut cfg.vtaBlockIn) b
  acc : ∀ b < batch / cfg.vtaBatch * outFeat / cfg.vtaBlockOut, σ (.dram .acc b) =
    bufferBlock 32 32 _ _ (packBuffer 32 32 (fun y x => (biases y x).toInt) batch outFeat
      cfg.vtaBatch cfg.vtaBlockOut) b

/-- `sum` in the loops of the reference implementation after `n` turns. -/
def partialSum (inputs weights : ℕ → ℕ → BitVec 8) (biases : ℕ → ℕ → BitVec 32) (n i j : ℕ) :
    BitVec 32 :=
  biases i j + .ofInt 32 (dotProduct ((List.range n).map fun k => (weights j k, inputs i k)))

/-- `outputs_ref[i][j]` of the two GEMM tests. -/
def gemmOutputsRef (inFeat : ℕ) (inputs weights : ℕ → ℕ → BitVec 8) (biases : ℕ → ℕ → BitVec 32)
    (i j : ℕ) : BitVec 8 :=
  refGemm (biases i j) ((List.range inFeat).map fun k => (weights j k, inputs i k))

section Operands

variable {cfg : VtaConfig} {batch inFeat outFeat : ℕ} {uops : List Uop}
  {inputs weights : ℕ → ℕ → BitVec 8} {biases : ℕ → ℕ → BitVec 32} {σ : Memory cfg}

lemma partialSum_zero : partialSum inputs weights biases 0 = biases := by
  funext i j
  simp [partialSum, dotProduct]

lemma partialSum_add (n m i j : ℕ) : partialSum inputs weights biases (n + m) i j
    = partialSum inputs weights biases n i j + .ofInt 32 (dotProduct ((List.range m).map fun k =>
        (weights j (n + k), inputs i (n + k)))) := by
  rw [partialSum, partialSum, List.range_add, List.map_append, List.map_map, dotProduct_append,
    BitVec.ofInt_add, BitVec.add_assoc]
  rfl

/-- The reference output is the last partial sum, cut to a byte. -/
lemma gemmOutputsRef_eq (i j : ℕ) : gemmOutputsRef inFeat inputs weights biases i j
    = (partialSum inputs weights biases inFeat i j).setWidth 8 :=
  refGemm_eq _ _

/-- A block of a matrix seen from an entry on a block boundary. -/
lemma matrixBlock_shift {W h w : ℕ} (src : ℕ → ℕ → BitVec W) {y x : ℕ} (hy : h ∣ y) (hx : w ∣ x)
    (r c : ℕ) : matrixBlock h w src (y / h + r) (x / w + c)
      = matrixBlock h w (fun y' x' => src (y + y') (x + x')) r c := by
  funext a b
  rw [matrixBlock, matrixBlock, Nat.add_mul, Nat.add_mul, Nat.div_mul_cancel hy,
    Nat.div_mul_cancel hx, Nat.add_assoc, Nat.add_assoc]

namespace GemmPrepared

variable (h : GemmPrepared cfg batch inFeat outFeat uops inputs weights biases σ)
include h

/-- Only the output buffer may change. -/
lemma of_eq {τ : Memory cfg} (hdram : ∀ mem b, mem ≠ .out → τ (.dram mem b) = σ (.dram mem b)) :
    GemmPrepared cfg batch inFeat outFeat uops inputs weights biases τ where
  uop n hn := (hdram .uop n nofun).trans (h.uop n hn)
  inp b hb := (hdram .inp b nofun).trans (h.inp b hb)
  wgt b hb := (hdram .wgt b nofun).trans (h.wgt b hb)
  acc b hb := (hdram .acc b nofun).trans (h.acc b hb)

variable (hpack : PackConfig cfg)
include hpack

lemma inp_block (hbatch : cfg.vtaBatch ∣ batch) (hin : cfg.vtaBlockIn ∣ inFeat) {i j : ℕ}
    (hi : i < batch / cfg.vtaBatch) (hj : j < inFeat / cfg.vtaBlockIn) :
    σ (.dram .inp (i * (inFeat / cfg.vtaBlockIn) + j)) = matrixBlock _ _ inputs i j := by
  rw [h.inp _ (by rw [Nat.mul_div_assoc _ hin]; exact mul_add_lt hi hj)]
  exact hpack.inp.bufferBlock_packBuffer cfg.vtaBatch_pos cfg.vtaBlockIn_pos inputs hbatch hin hi hj

lemma wgt_block (hin : cfg.vtaBlockIn ∣ inFeat) (hout : cfg.vtaBlockOut ∣ outFeat) {i j : ℕ}
    (hi : i < outFeat / cfg.vtaBlockOut) (hj : j < inFeat / cfg.vtaBlockIn) :
    σ (.dram .wgt (i * (inFeat / cfg.vtaBlockIn) + j)) = matrixBlock _ _ weights i j := by
  rw [h.wgt _ (by
    rw [Nat.mul_div_assoc _ hout, Nat.mul_comm (inFeat / _)]
    exact mul_add_lt hi hj)]
  exact hpack.wgt.bufferBlock_packBuffer cfg.vtaBlockOut_pos cfg.vtaBlockIn_pos weights hout hin hi hj

lemma acc_block (hbatch : cfg.vtaBatch ∣ batch) (hout : cfg.vtaBlockOut ∣ outFeat) {i j : ℕ}
    (hi : i < batch / cfg.vtaBatch) (hj : j < outFeat / cfg.vtaBlockOut) :
    σ (.dram .acc (i * (outFeat / cfg.vtaBlockOut) + j)) = matrixBlock _ _ biases i j := by
  rw [h.acc _ (by rw [Nat.mul_div_assoc _ hout]; exact mul_add_lt hi hj)]
  exact hpack.acc.bufferBlock_packBuffer cfg.vtaBatch_pos cfg.vtaBlockOut_pos biases hbatch hout hi hj

end GemmPrepared

/-- `vta` is called with the packed operands in place. -/
lemma gemmPrepared_called (cfg : VtaConfig) (batch inFeat outFeat : ℕ) (uops : List Uop)
    (inputs weights : ℕ → ℕ → BitVec 8) (biases : ℕ → ℕ → BitVec 32) :
    GemmPrepared cfg batch inFeat outFeat uops inputs weights biases
      (.called cfg uops
        (bufferBlock 8 32 _ _ (packBuffer 8 32 (fun y x => (inputs y x).toInt) batch inFeat
          cfg.vtaBatch cfg.vtaBlockIn))
        (bufferBlock 8 32 _ _ (packBuffer 8 32 (fun y x => (weights y x).toInt) outFeat inFeat
          cfg.vtaBlockOut cfg.vtaBlockIn))
        (bufferBlock 32 32 _ _ (packBuffer 32 32 (fun y x => (biases y x).toInt) batch outFeat
          cfg.vtaBatch cfg.vtaBlockOut))) where
  uop _ hn := Memory.called_uop hn
  inp _ _ := rfl
  wgt _ _ := rfl
  acc _ _ := rfl

end Operands

end ThreeLaSim
