import ThreeLaSim.Vta.PackBuffer

/-!
# `unpackBuffer`

The inverse of the packing loop.  Both functions visit the matrix block by block and advance in the
buffer when the index inside the block reaches the end of a word; since a block fills whole words,
turn `z` of the loops works on field `z % ratio` of word `z / ratio`.

* **`unpackCells_eq`** — unpacking reads the fields back, entry by entry.
* **`packBuffer_unpackBuffer`** — the two functions undo each other.
-/

namespace ThreeLaSim

open LoopNest BitFields

/-! ## The two loops -/

/-- The assignments `dst[buffer_idx++] = tmp` of `packBuffer`, in the order they are made, each with
its index. -/
structure PackTrace where
  writes : List (ℕ × ℕ)
  bufferIdx : ℕ
  tmp : ℕ
  deriving DecidableEq, Repr

/-- `packStep`, with the index in the buffer. -/
def packTraceStep (W D : ℕ) (st : PackTrace) (blockIdx : ℕ) (v : ℤ) : PackTrace :=
  let ratio := D / W
  let tmp := (st.tmp ||| ((v % 2 ^ W).toNat <<< (blockIdx % ratio * W))) % 2 ^ D
  if blockIdx % ratio = ratio - 1 then ⟨st.writes ++ [(tmp, st.bufferIdx)], st.bufferIdx + 1, 0⟩
  else ⟨st.writes, st.bufferIdx, tmp⟩

/-- `packBuffer`, with the assignments it makes. -/
def packTrace (W D : ℕ) (src : ℕ → ℕ → ℤ) (ySize xSize yBlock xBlock : ℕ) : PackTrace :=
  ((List.range (ySize / yBlock)).flatMap fun i =>
    (List.range (xSize / xBlock)).flatMap fun j => blockCells src yBlock xBlock i j).foldl
      (fun st c => packTraceStep W D st c.1 c.2) ⟨[], 0, 0⟩

/-- The variables of the unpacking loop. -/
structure UnpackState where
  bufferIdx : ℕ
  dst : ℕ → ℕ → ℕ

/-- One element: `dst[row][col] = (src[buffer_idx] >> ...) & mask`, and `buffer_idx++` at the end of
a word.  A read past the end of the buffer has no result.  `W` is the width of an element and `D`
that of a word. -/
def unpackStep (W D : ℕ) (src : List ℕ) (st : UnpackState) (blockIdx row col : ℕ) :
    Option UnpackState := do
  let ratio := D / W
  let word ← src[st.bufferIdx]?
  let v := word >>> (blockIdx % ratio * W) &&& (2 ^ W - 1)
  let dst := fun y x => if y = row ∧ x = col then v else st.dst y x
  if blockIdx % ratio = ratio - 1 then some ⟨st.bufferIdx + 1, dst⟩ else some ⟨st.bufferIdx, dst⟩

/-- The loop over a list of elements: index in the block, row, column. -/
def unpackCells (W D : ℕ) (src : List ℕ) (st : UnpackState) (cells : List (ℕ × ℕ × ℕ)) :
    Option UnpackState :=
  cells.foldlM (fun st c => unpackStep W D src st c.1 c.2.1 c.2.2) st

/-- `unpackBuffer`; `dst` is what the matrix holds before. -/
def unpackBuffer (W D : ℕ) (dst : ℕ → ℕ → ℕ) (src : List ℕ) (ySize xSize yBlock xBlock : ℕ) :
    Option (ℕ → ℕ → ℕ) :=
  (unpackCells W D src ⟨0, dst⟩
    ((List.range (ySize / yBlock)).flatMap fun i =>
      (List.range (xSize / xBlock)).flatMap fun j =>
        (List.range yBlock).flatMap fun k =>
          (List.range xBlock).map fun l =>
            (l + k * xBlock, i * yBlock + k, j * xBlock + l))).map UnpackState.dst

/-! ## The turns of the loops -/

/-- The matrix entry of turn `z`. -/
def turnElem (src : ℕ → ℕ → ℤ) (yBlock xBlock n z : ℕ) : ℤ :=
  src (blockRow yBlock xBlock n z) (blockCol yBlock xBlock n z)

/-- The turns of the packing loop, numbered through. -/
lemma blockCells_flat (src : ℕ → ℕ → ℤ) (m n yBlock xBlock : ℕ) :
    ((List.range m).flatMap fun i => (List.range n).flatMap fun j => blockCells src yBlock xBlock i j)
      = (List.range (m * n * (yBlock * xBlock))).map fun z =>
          (z % (yBlock * xBlock), turnElem src yBlock xBlock n z) := by
  unfold blockCells
  rw [flatMap_range_blocks m n yBlock xBlock fun i j k l =>
    (l + k * xBlock, src (i * yBlock + k) (j * xBlock + l))]
  refine List.map_congr_left ?_
  intro z _
  rw [Nat.add_comm (z % (yBlock * xBlock) % xBlock), Nat.div_add_mod', turnElem, blockRow, blockCol]

/-- The trace of the packing loop is its buffer with the places numbered through. -/
lemma packTrace_eq (W D : ℕ) (src : ℕ → ℕ → ℤ) (ySize xSize yBlock xBlock : ℕ) :
    (packTrace W D src ySize xSize yBlock xBlock).writes
      = (packBuffer W D src ySize xSize yBlock xBlock).zipIdx ∧
    (packTrace W D src ySize xSize yBlock xBlock).tmp = (packCells W D ⟨[], 0⟩
      ((List.range (ySize / yBlock)).flatMap fun i =>
        (List.range (xSize / xBlock)).flatMap fun j => blockCells src yBlock xBlock i j)).tmp := by
  have hrun : ∀ (cells : List (ℕ × ℤ)) (st : PackState),
      cells.foldl (fun st c => packTraceStep W D st c.1 c.2) ⟨st.dst.zipIdx, st.dst.length, st.tmp⟩
        = ⟨(packCells W D st cells).dst.zipIdx, (packCells W D st cells).dst.length,
            (packCells W D st cells).tmp⟩ := by
    intro cells
    induction cells with
    | nil =>
        intro st
        rfl
    | cons c cells ih =>
        intro st
        have hstep : packTraceStep W D ⟨st.dst.zipIdx, st.dst.length, st.tmp⟩ c.1 c.2
            = ⟨(packStep W D st c.1 c.2).dst.zipIdx, (packStep W D st c.1 c.2).dst.length,
                (packStep W D st c.1 c.2).tmp⟩ := by
          simp only [packTraceStep, packStep]
          split_ifs <;> simp [List.zipIdx_append]
        rw [List.foldl_cons, hstep, ih]
        rfl
  have h := hrun ((List.range (ySize / yBlock)).flatMap fun i =>
    (List.range (xSize / xBlock)).flatMap fun j => blockCells src yBlock xBlock i j) ⟨[], 0⟩
  exact ⟨congrArg PackTrace.writes h, congrArg PackTrace.tmp h⟩

/-! ## Unpacking -/

/-- The element in turn `z` of a packed buffer. -/
def packedElem (W r : ℕ) (buf : List ℕ) (z : ℕ) : ℕ := field W (buf.getD (z / r) 0) (z % r)

/-- The turns of the unpacking loop, numbered through. -/
lemma unpackCells_flat (m n yBlock xBlock : ℕ) :
    ((List.range m).flatMap fun i => (List.range n).flatMap fun j =>
        (List.range yBlock).flatMap fun k => (List.range xBlock).map fun l =>
          (l + k * xBlock, i * yBlock + k, j * xBlock + l))
      = (List.range (m * n * (yBlock * xBlock))).map fun z =>
          (z % (yBlock * xBlock), blockRow yBlock xBlock n z, blockCol yBlock xBlock n z) := by
  rw [flatMap_range_blocks m n yBlock xBlock fun i j k l =>
    (l + k * xBlock, i * yBlock + k, j * xBlock + l)]
  refine List.map_congr_left ?_
  intro z _
  rw [Nat.add_comm (z % (yBlock * xBlock) % xBlock), Nat.div_add_mod', blockRow, blockCol]

section Unpacking

variable {W D r m n yBlock xBlock : ℕ} (hr : D / W = r) (hpos : 0 < r)
  (hdvd : r ∣ yBlock * xBlock) (src : List ℕ)
  (hlen : src.length * r = m * n * (yBlock * xBlock))
include hr hpos hdvd hlen

/-- One turn of the unpacking loop. -/
lemma unpackStep_eq (dst : ℕ → ℕ → ℕ) {z : ℕ} (hz : z < m * n * (yBlock * xBlock)) (row col : ℕ) :
    unpackStep W D src ⟨z / r, dst⟩ (z % (yBlock * xBlock)) row col
      = some ⟨(z + 1) / r, fun y x => if y = row ∧ x = col then packedElem W r src z else dst y x⟩ := by
  have hidx : z / r < src.length := Nat.div_lt_of_lt_mul (by rwa [Nat.mul_comm, hlen])
  have hword : src[z / r]? = some (src.getD (z / r) 0) := by
    rw [List.getD_eq_getElem _ _ hidx, List.getElem?_eq_getElem hidx]
  rw [unpackStep, hword, hr, Nat.mod_mod_of_dvd z hdvd]
  simp only [Option.bind_eq_bind, Option.bind_some]
  rcases succ_div_mod hpos z with ⟨hend, hdiv, -⟩ | ⟨hmid, hdiv, -⟩
  · rw [if_pos hend, hdiv]
    rfl
  · rw [if_neg (by omega), hdiv]
    rfl

/-- **Unpacking reads the fields back**: after `t` turns the entries visited so far hold their
elements, and the others what they held before. -/
theorem unpackCells_eq (dst : ℕ → ℕ → ℕ) {t : ℕ} (ht : t ≤ m * n * (yBlock * xBlock)) :
    unpackCells W D src ⟨0, dst⟩ ((List.range t).map fun z =>
        (z % (yBlock * xBlock), blockRow yBlock xBlock n z, blockCol yBlock xBlock n z))
      = some ⟨t / r, fun y x =>
          if y < m * yBlock ∧ x < n * xBlock ∧ blockPos yBlock xBlock n y x < t
          then packedElem W r src (blockPos yBlock xBlock n y x) else dst y x⟩ := by
  induction t with
  | zero => simp [unpackCells]
  | succ t ih =>
      have hstep := fun dst => unpackStep_eq hr hpos hdvd src hlen dst (Nat.lt_of_succ_le ht)
        (blockRow yBlock xBlock n t) (blockCol yBlock xBlock n t)
      rw [List.range_succ, List.map_append, unpackCells, List.foldlM_append, ← unpackCells,
        ih (Nat.le_of_succ_le ht)]
      simp only [Option.bind_eq_bind, Option.bind_some, List.map_cons, List.map_nil,
        List.foldlM_cons, List.foldlM_nil, hstep]
      rw [Option.pure_def]
      obtain ⟨hturn, hrow, hcol⟩ := blockPos_blockRow_blockCol (h := yBlock) (w := xBlock) ht
      congr 2
      funext y x
      by_cases hcell : y = blockRow yBlock xBlock n t ∧ x = blockCol yBlock xBlock n t
      · -- the entry of this turn
        obtain ⟨rfl, rfl⟩ := hcell
        rw [if_pos ⟨rfl, rfl⟩, if_pos ⟨hrow, hcol, by omega⟩, hturn]
      · -- any other entry has its own turn
        rw [if_neg hcell]
        refine if_congr ?_ rfl rfl
        refine and_congr_right fun hy => and_congr_right fun hx => ?_
        obtain ⟨hrow', hcol', -⟩ := blockRow_blockCol_blockPos hy hx
        have hne : blockPos yBlock xBlock n y x ≠ t := by
          rintro rfl
          exact hcell ⟨hrow'.symm, hcol'.symm⟩
        omega

end Unpacking

/-! ## Packing and unpacking -/

/-- The words of a packed matrix of `total` elements. -/
def packedWords (W r : ℕ) (f : ℕ → ℤ) (total : ℕ) : List ℕ :=
  (List.range (total / r)).map fun q => orFields W (wordFields W r f q) r

namespace PackAsserts

variable {W D yBlock xBlock : ℕ} (h : PackAsserts W D yBlock xBlock)
include h

lemma word_bound : 2 ^ D = (2 ^ W) ^ (D / W) := by
  rw [← Nat.pow_mul, ← h.word_eq]

/-- The words of `n` elements. -/
lemma word_count (n : ℕ) : n * W / D = n / (D / W) := by
  conv_lhs => rw [h.word_eq, Nat.mul_comm W]
  exact Nat.mul_div_mul_right n (D / W) h.width_pos

/-- **The packed buffer is the words of the matrix**, and no bits are left over. -/
theorem packCells_matrix (src : ℕ → ℕ → ℤ) (m n : ℕ) :
    packCells W D ⟨[], 0⟩ ((List.range m).flatMap fun i =>
        (List.range n).flatMap fun j => blockCells src yBlock xBlock i j)
      = ⟨packedWords W (D / W) (turnElem src yBlock xBlock n) (m * n * (yBlock * xBlock)), 0⟩ := by
  -- a block fills whole words, so its turns may be counted through
  have hmod : ∀ (l : List ℕ) (f : ℕ → ℤ) (st : PackState),
      packCells W D st (l.map fun z => (z % (yBlock * xBlock), f z))
        = packCells W D st (l.map fun z => (z, f z)) := by
    intro l f
    induction l with
    | nil =>
        intro st
        rfl
    | cons z l ih =>
        intro st
        have hstep : packStep W D st (z % (yBlock * xBlock)) (f z) = packStep W D st z (f z) := by
          rw [packStep, Nat.mod_mod_of_dvd z h.ratio_dvd]
          rfl
        simp only [List.map_cons, packCells, List.foldl_cons, hstep]
        exact ih _
  have hend : m * n * (yBlock * xBlock) % (D / W) = 0 :=
    Nat.mod_eq_zero_of_dvd (h.ratio_dvd.trans (Nat.dvd_mul_left _ _))
  rw [blockCells_flat, hmod _ (turnElem src yBlock xBlock n),
    packCells_eq rfl h.word_eq h.ratio_pos, hend]
  rfl

/-- The words of a matrix fit the word width. -/
lemma packedWords_lt (f : ℕ → ℤ) (total : ℕ) : ∀ word ∈ packedWords W (D / W) f total, word < 2 ^ D := by
  intro word hword
  obtain ⟨q, -, rfl⟩ := List.mem_map.mp hword
  rw [h.word_bound]
  exact orFields_lt (wordFields_lt W (D / W) f q) _

/-- An element of a packed matrix. -/
lemma packedElem_packedWords (f : ℕ → ℤ) {total z : ℕ} (hz : z < total) (hdvd : D / W ∣ total) :
    packedElem W (D / W) (packedWords W (D / W) f total) z = (f z % 2 ^ W).toNat := by
  have hidx : z / (D / W) < total / (D / W) := Nat.div_lt_div_of_lt_of_dvd hdvd hz
  have hword : (packedWords W (D / W) f total).getD (z / (D / W)) 0
      = orFields W (wordFields W (D / W) f (z / (D / W))) (D / W) := by
    rw [packedWords, List.getD_eq_getElem _ _ (by simpa using hidx)]
    simp
  rw [packedElem, hword, field_orFields (wordFields_lt W _ f _) (Nat.mod_lt z h.ratio_pos),
    wordFields, Nat.div_add_mod']

/-- Packing the elements of a buffer gives its words. -/
lemma packedWords_packedElem (f : ℕ → ℤ) {total : ℕ} {buf : List ℕ}
    (hlen : buf.length = total / (D / W)) (hlt : ∀ word ∈ buf, word < 2 ^ D)
    (hf : ∀ z < total, f z = packedElem W (D / W) buf z) :
    packedWords W (D / W) f total = buf := by
  refine List.ext_getElem (by rw [packedWords, List.length_map, List.length_range, hlen]) ?_
  intro q _ hq
  have hfields : ∀ t < D / W, wordFields W (D / W) f q t = field W buf[q] t := by
    intro t ht
    have hz : q * (D / W) + t < total :=
      calc q * (D / W) + t < total / (D / W) * (D / W) := mul_add_lt (by rwa [← hlen]) ht
        _ ≤ total := Nat.div_mul_le_self _ _
    obtain ⟨hdiv, hmod⟩ := mul_add_div_mod (a := q) ht
    have hmask := field_lt W buf[q] t
    rw [wordFields, hf _ hz, packedElem, hdiv, hmod, List.getD_eq_getElem _ _ hq]
    exact_mod_cast Nat.mod_eq_of_lt hmask
  have hword : buf[q] < (2 ^ W) ^ (D / W) := by
    rw [← h.word_bound]
    exact hlt _ (List.getElem_mem hq)
  simp only [packedWords, List.getElem_map, List.getElem_range]
  rw [orFields_congr hfields, orFields_field hword]

section Whole

variable (hyBlock : 0 < yBlock) (hxBlock : 0 < xBlock) (m n : ℕ)
include hyBlock hxBlock

/-- `packBuffer` on `m` by `n` blocks. -/
lemma packBuffer_blocks (src : ℕ → ℕ → ℤ) :
    packBuffer W D src (m * yBlock) (n * xBlock) yBlock xBlock
      = packedWords W (D / W) (turnElem src yBlock xBlock n) (m * n * (yBlock * xBlock)) := by
  rw [packBuffer, Nat.mul_div_cancel m hyBlock, Nat.mul_div_cancel n hxBlock,
    h.packCells_matrix src m n]

/-- `unpackBuffer` on the words of `m` by `n` blocks. -/
lemma unpackBuffer_blocks {buf : List ℕ} (dst : ℕ → ℕ → ℕ)
    (hlen : buf.length = m * n * (yBlock * xBlock) / (D / W)) :
    unpackBuffer W D dst buf (m * yBlock) (n * xBlock) yBlock xBlock
      = some fun y x => if y < m * yBlock ∧ x < n * xBlock ∧
            blockPos yBlock xBlock n y x < m * n * (yBlock * xBlock)
          then packedElem W (D / W) buf (blockPos yBlock xBlock n y x) else dst y x := by
  have hdvd : D / W ∣ m * n * (yBlock * xBlock) := h.ratio_dvd.trans (Nat.dvd_mul_left _ _)
  have hturns : buf.length * (D / W) = m * n * (yBlock * xBlock) := by
    rw [hlen, Nat.div_mul_cancel hdvd]
  rw [unpackBuffer, Nat.mul_div_cancel m hyBlock, Nat.mul_div_cancel n hxBlock, unpackCells_flat,
    unpackCells_eq rfl h.ratio_pos h.ratio_dvd buf hturns dst le_rfl]
  rfl

end Whole

end PackAsserts

/-- **`unpackBuffer` undoes `packBuffer`, and packing is a bijection.**  `packBuffer` makes the
assignments to places 0, 1, 2, ... once each, with words that fit the word width, and leaves no bits
behind; `unpackBuffer` turns these words into the matrix of the elements modulo `2 ^ W`.  And every
buffer of that length unpacks to a matrix that packs to the buffer. -/
theorem packBuffer_unpackBuffer {W D yBlock xBlock ySize xSize : ℕ}
    (h : PackAsserts W D yBlock xBlock) (hyBlock : 0 < yBlock) (hxBlock : 0 < xBlock)
    (hy : yBlock ∣ ySize) (hx : xBlock ∣ xSize) :
    (∀ src : ℕ → ℕ → ℤ,
      (packTrace W D src ySize xSize yBlock xBlock).tmp = 0 ∧
      (packTrace W D src ySize xSize yBlock xBlock).writes.map Prod.snd
        = List.range (ySize * xSize * W / D) ∧
      (packTrace W D src ySize xSize yBlock xBlock).writes.map Prod.fst
        = packBuffer W D src ySize xSize yBlock xBlock ∧
      (∀ word ∈ packBuffer W D src ySize xSize yBlock xBlock, word < 2 ^ D) ∧
      ∀ dst, unpackBuffer W D dst (packBuffer W D src ySize xSize yBlock xBlock) ySize xSize yBlock
          xBlock
        = some fun y x => if y < ySize ∧ x < xSize then (src y x % 2 ^ W).toNat else dst y x) ∧
    ∀ (buf : List ℕ) (dst : ℕ → ℕ → ℕ), buf.length = ySize * xSize * W / D →
      (∀ word ∈ buf, word < 2 ^ D) →
      ∃ matrix, unpackBuffer W D dst buf ySize xSize yBlock xBlock = some matrix ∧
        packBuffer W D (fun y x => matrix y x) ySize xSize yBlock xBlock = buf := by
  obtain ⟨m, rfl⟩ := exists_eq_mul_left_of_dvd hy
  obtain ⟨n, rfl⟩ := exists_eq_mul_left_of_dvd hx
  have hsize : m * yBlock * (n * xBlock) = m * n * (yBlock * xBlock) := by ring
  have hdvd : D / W ∣ m * n * (yBlock * xBlock) := h.ratio_dvd.trans (Nat.dvd_mul_left _ _)
  have hpack := h.packBuffer_blocks hyBlock hxBlock m n
  rw [hsize, h.word_count]
  refine ⟨?_, ?_⟩
  · intro src
    obtain ⟨hwrites, htmp⟩ := packTrace_eq W D src (m * yBlock) (n * xBlock) yBlock xBlock
    have hlen : (packBuffer W D src (m * yBlock) (n * xBlock) yBlock xBlock).length
        = m * n * (yBlock * xBlock) / (D / W) := by
      rw [hpack, packedWords, List.length_map, List.length_range]
    refine ⟨?_, ?_, ?_, ?_, ?_⟩
    · rw [htmp, Nat.mul_div_cancel m hyBlock, Nat.mul_div_cancel n hxBlock, h.packCells_matrix]
    · rw [hwrites, List.zipIdx_map_snd, hlen, List.range_eq_range']
    · rw [hwrites, List.zipIdx_map_fst]
    · rw [hpack]
      exact h.packedWords_lt _ _
    · intro dst
      rw [h.unpackBuffer_blocks hyBlock hxBlock m n dst hlen, hpack]
      congr 1
      funext y x
      by_cases hcell : y < m * yBlock ∧ x < n * xBlock
      · obtain ⟨hrow, hcol, hpos⟩ := blockRow_blockCol_blockPos hcell.1 hcell.2
        rw [if_pos hcell, if_pos ⟨hcell.1, hcell.2, hpos⟩, h.packedElem_packedWords _ hpos hdvd,
          turnElem, hrow, hcol]
      · rw [if_neg hcell, if_neg fun hall => hcell ⟨hall.1, hall.2.1⟩]
  · intro buf dst hlen hlt
    refine ⟨_, h.unpackBuffer_blocks hyBlock hxBlock m n dst hlen, ?_⟩
    rw [hpack]
    refine h.packedWords_packedElem _ hlen hlt ?_
    intro z hz
    obtain ⟨hturn, hrow, hcol⟩ := blockPos_blockRow_blockCol hz
    rw [turnElem, hturn, if_pos ⟨hrow, hcol, hz⟩]

/-- Bytes packed four to a word, in blocks of two rows and two columns. -/
theorem packBuffer_unpackBuffer_bytes :
    unpackBuffer 8 32 (fun _ _ => 0) (packBuffer 8 32 (fun y x => y - 2 * x) 4 6 2 2) 4 6 2 2
      = some fun y x => if y < 4 ∧ x < 6 then (((y : ℤ) - 2 * x) % 2 ^ 8).toNat else 0 :=
  ((packBuffer_unpackBuffer
    { width_pos := by decide, width_dvd := by decide, word_pos := by decide
      word_le := by decide, block_mod := by decide }
    (by decide) (by decide) (by decide) (by decide)).1 fun y x => y - 2 * x).2.2.2.2 fun _ _ => 0

end ThreeLaSim
