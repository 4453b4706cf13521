import ThreeLaSim.Core.BlockTranspose
import ThreeLaSim.Core.Numerals

/-!
# The three address maps of the maxpool co-simulation

The maxpool input lives twice: in the tensor memory of the relay model, row by row, and in the
large buffer of flexnlp, in groups of sixteen timesteps.  Three programs carry a copy of the map
between the two:

* `maxpRelayAddr` — `maxp_test_gen.cc`, which places the `i`-th large-buffer vector in relay memory;
* `addrMapping` — `prog_frag_gen.cc` in mode `am`, which writes the map out, byte by byte;
* `entryAddrFlex` — the comparison loop of `maxpool_sim_main.cc`, which goes the other way and
  counts in groups of eight, packed two to a block.

All three are `blockTranspose 16 nv` or its inverse `blockTranspose nv 16`.  The programs compute
in `int`; `maxpRelayAddr_lt` bounds every address by the end of its group, so nothing wraps as long
as the whole groups stay below `2 ^ 31` bytes.
-/

namespace ThreeLaSim

open CText BlockTranspose

/-! ## `maxp_test_gen.cc` -/

/-- `addr_offset` of the `i`-th vector taken from the large buffer. -/
def maxpRelayAddr (numVectors i : ℕ) : ℕ :=
  let groupSize := 16 * numVectors
  let groupIndex := i / groupSize
  let addrFlex := i % groupSize
  let yFlex := addrFlex / 16
  let xFlex := addrFlex % 16
  let xRelay := yFlex
  let yRelay := xFlex
  (groupIndex * groupSize + yRelay * numVectors + xRelay) * 16

/-- The relay vector index of the `i`-th vector: its byte address in units of sixteen. -/
def relayVector (numVectors i : ℕ) : ℕ := maxpRelayAddr numVectors i / 16

lemma maxpRelayAddr_eq (nv i : ℕ) : maxpRelayAddr nv i = 16 * blockTranspose 16 nv i := by
  rw [maxpRelayAddr, blockTranspose, Nat.mul_comm]

lemma relayVector_eq (nv i : ℕ) : relayVector nv i = blockTranspose 16 nv i := by
  rw [relayVector, maxpRelayAddr_eq, Nat.mul_div_cancel_left _ (by decide)]

lemma maxpRelayAddr_eq_relayVector (nv i : ℕ) : maxpRelayAddr nv i = 16 * relayVector nv i := by
  rw [maxpRelayAddr_eq, relayVector_eq]

/-- Vectors of the first `n` groups stay in the first `n` groups. -/
lemma maxpRelayAddr_lt {nv i n : ℕ} (hnv : 0 < nv) (hi : i < n * (16 * nv)) :
    maxpRelayAddr nv i < 16 * (n * (16 * nv)) := by
  have := blockTranspose_lt (R := 16) (by decide) hnv hi
  rw [maxpRelayAddr_eq]
  omega

lemma relayVector_injective {nv : ℕ} (hnv : 0 < nv) : Function.Injective (relayVector nv) := by
  have : relayVector nv = blockTranspose 16 nv := funext (relayVector_eq nv)
  rw [this]
  exact blockTranspose_injective (by decide) hnv

/-! ## `prog_frag_gen.cc`, mode `am` -/

/-- The first byte of the large buffer on the flexnlp bus. -/
def largeBufferBase : ℕ := 0x33500000

/-- One record of the address mapping file. -/
structure AddrPair where
  relayAddr : Str
  flexAddr : Str
  deriving DecidableEq, Repr

/-- The number printed behind `0x`. -/
def addrValue (s : Str) : ℕ := ofDigits 16 (s.drop 2)

@[simp] lemma addrValue_hexText (n : ℕ) : addrValue (hexText (Nat.toDigits 16 n)) = n :=
  ofDigits_toDigits (by decide) (by decide) n

/-- The relay address the mode computes for a sixteen-byte-aligned flexnlp address. -/
def addrRelayV (numVector flexAddr : ℕ) : ℕ :=
  let groupSize := 16 * numVector
  let flexAddrOffset := flexAddr - largeBufferBase
  let i := flexAddrOffset / 16
  let groupIndex := i / groupSize
  let addrFlexV := i % groupSize
  let yFlexV := addrFlexV / 16
  let xFlexV := addrFlexV % 16
  let xRelayV := yFlexV
  let yRelayV := xFlexV
  (groupIndex * groupSize + yRelayV * numVector + xRelayV) * 16

/-- The records written for `num_vector` and the upper address `addr_max`. -/
def addrMapping (numVector addrMax : ℕ) : List AddrPair :=
  (List.range ((addrMax - largeBufferBase + 15) / 16)).flatMap fun n =>
    let flexAddr := largeBufferBase + 16 * n
    (List.range 16).map fun j =>
      { relayAddr := hexText (Nat.toDigits 16 (addrRelayV numVector flexAddr + j))
        flexAddr := hexText (Nat.toDigits 16 (flexAddr + j)) }

/-- The file read as a map from flexnlp byte addresses to relay byte addresses. -/
def addrMap (numVector addrMax flexByte : ℕ) : Option ℕ :=
  ((addrMapping numVector addrMax).find? fun p => addrValue p.flexAddr = flexByte).map
    fun p => addrValue p.relayAddr

lemma addrRelayV_eq (nv n : ℕ) :
    addrRelayV nv (largeBufferBase + 16 * n) = 16 * relayVector nv n := by
  have : addrRelayV nv (largeBufferBase + 16 * n) = maxpRelayAddr nv n := by
    rw [addrRelayV, maxpRelayAddr, Nat.add_sub_cancel_left, Nat.mul_div_cancel_left _ (by decide)]
  rw [this, maxpRelayAddr_eq_relayVector]

/-- Every record sends a byte of vector `n` to the same byte of relay vector `n`. -/
lemma mem_addrMapping {nv addrMax : ℕ} {p : AddrPair} :
    p ∈ addrMapping nv addrMax ↔ ∃ n j, largeBufferBase + 16 * n < addrMax ∧ j < 16 ∧
      p = { relayAddr := hexText (Nat.toDigits 16 (16 * relayVector nv n + j))
            flexAddr := hexText (Nat.toDigits 16 (largeBufferBase + 16 * n + j)) } := by
  have hrange : ∀ n, n < (addrMax - largeBufferBase + 15) / 16
      ↔ largeBufferBase + 16 * n < addrMax := fun n => by omega
  simp only [addrMapping, List.mem_flatMap, List.mem_range, List.mem_map, hrange, addrRelayV_eq]
  constructor
  · rintro ⟨n, hn, j, hj, rfl⟩
    exact ⟨n, j, hn, hj, rfl⟩
  · rintro ⟨n, j, hn, hj, rfl⟩
    exact ⟨n, hn, j, hj, rfl⟩

/-- **What the file says** about byte `b` of vector `i`. -/
theorem addrMap_eq {nv addrMax i b : ℕ} (hb : b < 16) (hi : largeBufferBase + 16 * i < addrMax) :
    addrMap nv addrMax (largeBufferBase + 16 * i + b) = some (16 * relayVector nv i + b) := by
  rw [addrMap]
  cases hfind : (addrMapping nv addrMax).find?
      (fun p => addrValue p.flexAddr = largeBufferBase + 16 * i + b) with
  | none =>
      have hmem := (@mem_addrMapping nv _ _).mpr ⟨i, b, hi, hb, rfl⟩
      have := List.find?_eq_none.mp hfind _ hmem
      simp at this
  | some p =>
      have hp := List.find?_some hfind
      obtain ⟨n, j, -, hj, rfl⟩ := mem_addrMapping.mp (List.mem_of_find?_eq_some hfind)
      simp only [addrValue_hexText, decide_eq_true_eq] at hp
      have hn : n = i := by omega
      have hjb : j = b := by omega
      subst hn hjb
      simp

/-- The mapping file permutes the bytes of every run of whole groups. -/
theorem addrMap_bijOn {nv addrMax L : ℕ} (hnv : 0 < nv) (hdvd : 256 * nv ∣ L)
    (hL : largeBufferBase + L ≤ addrMax) :
    Set.BijOn (fun o => addrMap nv addrMax (largeBufferBase + o)) (Set.Iio L)
      (some '' Set.Iio L) := by
  obtain ⟨n, rfl⟩ := hdvd
  have hlen : 256 * nv * n = 16 * (n * (16 * nv)) := by ring
  have hcells : Set.BijOn (cellMap 16 (blockTranspose 16 nv)) (Set.Iio (256 * nv * n))
      (Set.Iio (256 * nv * n)) := by
    rw [hlen]
    exact bijOn_cellMap (by decide) (bijOn (by decide) hnv n)
  refine ((Option.some_injective ℕ).injOn.bijOn_image.comp hcells).congr fun o ho => ?_
  have ho' : o < 256 * nv * n := ho
  have heq : largeBufferBase + o = largeBufferBase + 16 * (o / 16) + o % 16 := by omega
  show some (cellMap 16 (blockTranspose 16 nv) o) = addrMap nv addrMax (largeBufferBase + o)
  rw [heq, addrMap_eq (Nat.mod_lt _ (by decide)) (by omega), relayVector_eq, cellMap]

/-! ## `maxpool_sim_main.cc` -/

/-- `entry_addr_flex` of the comparison loop for the `j`-th relay entry. -/
def entryAddrFlex (numVectors tensorOutX j : ℕ) : ℕ :=
  let groupSize := 8 * numVectors
  let entryInGroup := j % groupSize
  let groupIndex := j / groupSize
  let yRelay := entryInGroup / tensorOutX
  let xRelay := entryInGroup % tensorOutX
  let xFlex := yRelay
  let yFlex := xRelay
  let entryGOffsetFlex := 2 * groupSize * (groupIndex / 2)
  16 * (entryGOffsetFlex + 16 * yFlex + xFlex + groupIndex % 2 * 8)

/-- The flexnlp vector index the `j`-th relay entry is compared with. -/
def checkerVector (numVectors tensorOutX j : ℕ) : ℕ := entryAddrFlex numVectors tensorOutX j / 16

/-- The byte indices compared, in order: `(index_relay, index_flex)`. -/
def comparedPairs (numVectors tensorOutX entryMax16 : ℕ) : List (ℕ × ℕ) :=
  (List.range entryMax16).flatMap fun j =>
    (List.range 16).map fun k => (16 * j + 15 - k, entryAddrFlex numVectors tensorOutX j + 15 - k)

/-- The counters of the comparison loop. -/
structure Tally where
  total : ℕ
  passed : ℕ
  error : ℕ
  deriving DecidableEq, Repr

/-- One turn of the comparison loop. -/
def Tally.count (t : Tally) (datRelay datFlex : ℕ) : Tally :=
  if datRelay = datFlex then { t with total := t.total + 1, passed := t.passed + 1 }
  else { t with total := t.total + 1, error := t.error + 1 }

/-- The comparison loop over the two memories. -/
def compareLoop (numVectors tensorOutX entryMax16 : ℕ) (relayMem flexMem : ℕ → ℕ) : Tally :=
  (comparedPairs numVectors tensorOutX entryMax16).foldl
    (fun t p => t.count (relayMem p.1) (flexMem p.2)) ⟨0, 0, 0⟩

/-- The checker's packing of two groups of eight is the group of sixteen, transposed back. -/
lemma entryAddrFlex_eq {nv : ℕ} (hnv : 0 < nv) (j : ℕ) :
    entryAddrFlex nv nv j = 16 * blockTranspose nv 16 j := by
  obtain ⟨g, x, y, hx, hy, rfl⟩ := exists_eq (R := nv) (C := 16) hnv (by decide) j
  -- row `y` of the group of sixteen is row `y % 8` of half `y / 8`
  have hsplit : g * (nv * 16) + y * nv + x
      = (2 * g + y / 8) * (nv * 8) + y % 8 * nv + x := by
    have hy8 := Nat.div_add_mod y 8
    calc g * (nv * 16) + y * nv + x
        = g * (nv * 16) + (8 * (y / 8) + y % 8) * nv + x := by rw [hy8]
      _ = (2 * g + y / 8) * (nv * 8) + y % 8 * nv + x := by ring
  have hy8 : y % 8 < 8 := Nat.mod_lt _ (by decide)
  have hdiv : (2 * g + y / 8) / 2 = g := by omega
  have hmod : (2 * g + y / 8) % 2 = y / 8 := by omega
  have hrow : (y % 8 * nv + x) / nv = y % 8 := by
    rw [Nat.mul_comm, Nat.mul_add_div hnv, Nat.div_eq_of_lt hx, Nat.add_zero]
  have hcol : (y % 8 * nv + x) % nv = x := by
    rw [Nat.mul_comm, Nat.mul_add_mod, Nat.mod_eq_of_lt hx]
  rw [blockTranspose_mk hx hy, hsplit, entryAddrFlex, Nat.mul_comm 8 nv]
  simp only [div_mk hx hy8, mod_mk hx hy8, hdiv, hmod, hrow, hcol]
  have hend := Nat.div_add_mod y 8
  have hring : 2 * (nv * 8) * g = g * (nv * 16) := by ring
  omega

lemma checkerVector_eq {nv : ℕ} (hnv : 0 < nv) (j : ℕ) :
    checkerVector nv nv j = blockTranspose nv 16 j := by
  rw [checkerVector, entryAddrFlex_eq hnv, Nat.mul_div_cancel_left _ (by decide)]

lemma entryAddrFlex_eq_checkerVector {nv : ℕ} (hnv : 0 < nv) (j : ℕ) :
    entryAddrFlex nv nv j = 16 * checkerVector nv nv j := by
  rw [checkerVector_eq hnv, entryAddrFlex_eq hnv]

lemma relayVector_checkerVector {nv : ℕ} (hnv : 0 < nv) (j : ℕ) :
    relayVector nv (checkerVector nv nv j) = j := by
  rw [checkerVector_eq hnv, relayVector_eq, blockTranspose_blockTranspose hnv (by decide)]

lemma checkerVector_relayVector {nv : ℕ} (hnv : 0 < nv) (i : ℕ) :
    checkerVector nv nv (relayVector nv i) = i := by
  rw [checkerVector_eq hnv, relayVector_eq, blockTranspose_blockTranspose (by decide) hnv]

lemma mem_comparedPairs {nv tx entryMax : ℕ} {p : ℕ × ℕ} :
    p ∈ comparedPairs nv tx entryMax ↔ ∃ j b, j < entryMax ∧ b < 16 ∧
      p = (16 * j + b, entryAddrFlex nv tx j + b) := by
  simp only [comparedPairs, List.mem_flatMap, List.mem_range, List.mem_map]
  constructor
  · rintro ⟨j, hj, k, hk, rfl⟩
    exact ⟨j, 15 - k, hj, by omega, by ext <;> simp <;> omega⟩
  · rintro ⟨j, b, hj, hb, rfl⟩
    exact ⟨j, hj, 15 - b, by omega, by ext <;> simp <;> omega⟩

/-- Every relay byte of the output is compared exactly once. -/
lemma comparedPairs_fst_perm (nv tx : ℕ) :
    ∀ entryMax, ((comparedPairs nv tx entryMax).map Prod.fst).Perm (List.range (16 * entryMax))
  | 0 => by simp [comparedPairs]
  | n + 1 => by
      have ih := comparedPairs_fst_perm nv tx n
      have hblock : (List.range 16).map (fun k => 16 * n + 15 - k)
          = ((List.range 16).map (16 * n + ·)).reverse := by
        simp [List.range_succ]
      rw [Nat.mul_succ, List.range_add]
      simp only [comparedPairs, List.range_succ (n := n), List.flatMap_append, List.map_append,
        List.flatMap_singleton, List.map_map, Function.comp_def] at ih ⊢
      refine ih.append ?_
      rw [hblock]
      exact List.reverse_perm _

/-- A run of checks counts every check once, on its side. -/
lemma foldl_tally {α : Type*} (P : α → Prop) [DecidablePred P] (l : List α) (t : Tally) :
    l.foldl (fun t x => if P x then { t with total := t.total + 1, passed := t.passed + 1 }
        else { t with total := t.total + 1, error := t.error + 1 }) t
      = ⟨t.total + l.length, t.passed + l.countP (P ·), t.error + l.countP (¬ P ·)⟩ := by
  induction l generalizing t with
  | nil => simp
  | cons x l ih =>
      rw [List.foldl_cons, ih]
      by_cases hx : P x
      · simp [hx]
        omega
      · simp [hx]
        omega

/-- The loop counts every pair once, on the side its bytes put it. -/
lemma foldl_count (relayMem flexMem : ℕ → ℕ) (ps : List (ℕ × ℕ)) (t : Tally) :
    ps.foldl (fun t p => t.count (relayMem p.1) (flexMem p.2)) t
      = { total := t.total + ps.length
          passed := t.passed + ps.countP fun p => relayMem p.1 = flexMem p.2
          error := t.error + ps.countP fun p => relayMem p.1 ≠ flexMem p.2 } :=
  foldl_tally (fun p : ℕ × ℕ => relayMem p.1 = flexMem p.2) ps t

/-- **The verdict.**  The checker counts sixteen bytes for each entry, and reports no error exactly
when every relay byte equals the flexnlp byte of the vector it is compared with. -/
theorem compareLoop_verdict {nv : ℕ} (hnv : 0 < nv) (entryMax : ℕ) (relayMem flexMem : ℕ → ℕ) :
    (compareLoop nv nv entryMax relayMem flexMem).total = 16 * entryMax ∧
    (compareLoop nv nv entryMax relayMem flexMem).passed
      + (compareLoop nv nv entryMax relayMem flexMem).error = 16 * entryMax ∧
    ((compareLoop nv nv entryMax relayMem flexMem).error = 0 ↔
      ∀ j < entryMax, ∀ b < 16,
        relayMem (16 * j + b) = flexMem (16 * checkerVector nv nv j + b)) := by
  have hlen : (comparedPairs nv nv entryMax).length = 16 * entryMax := by
    simpa using (comparedPairs_fst_perm nv nv entryMax).length_eq
  have hcount := List.length_eq_countP_add_countP
    (fun p : ℕ × ℕ => decide (relayMem p.1 = flexMem p.2)) (l := comparedPairs nv nv entryMax)
  rw [compareLoop, foldl_count]
  refine ⟨by simpa using hlen, ?_, ?_⟩
  · simp only [Nat.zero_add, ne_eq, decide_not] at hcount ⊢
    simpa [hlen] using hcount.symm
  · simp only [Nat.zero_add, List.countP_eq_zero, ne_eq, decide_not, Bool.not_eq_true',
      decide_eq_false_iff_not, not_not]
    constructor
    · intro h j hj b hb
      have := h _ (mem_comparedPairs.mpr ⟨j, b, hj, hb, rfl⟩)
      rwa [entryAddrFlex_eq_checkerVector hnv] at this
    · intro h p hp
      obtain ⟨j, b, hj, hb, rfl⟩ := mem_comparedPairs.mp hp
      rw [entryAddrFlex_eq_checkerVector hnv]
      exact h j hj b hb

/-! ## The maps agree -/

/-- **One layout bijection.**  The generator and the checker undo each other, the address mapping
file is the generator's map byte by byte and permutes every run of whole groups, and the checker
compares each relay byte, once, with the flexnlp byte the file sends to it. -/
theorem addressMaps_agree (nv : ℕ) (hnv : 1 ≤ nv) :
    (∀ i, checkerVector nv nv (relayVector nv i) = i) ∧
    (∀ j, relayVector nv (checkerVector nv nv j) = j) ∧
    (∀ addrMax i b, b < 16 → largeBufferBase + 16 * i < addrMax →
      addrMap nv addrMax (largeBufferBase + 16 * i + b) = some (16 * relayVector nv i + b)) ∧
    (∀ addrMax L, 256 * nv ∣ L → largeBufferBase + L ≤ addrMax →
      Set.BijOn (fun o => addrMap nv addrMax (largeBufferBase + o)) (Set.Iio L)
        (some '' Set.Iio L)) ∧
    (∀ entryMax, ((comparedPairs nv nv entryMax).map Prod.fst).Perm (List.range (16 * entryMax))) ∧
    (∀ entryMax addrMax, ∀ p ∈ comparedPairs nv nv entryMax, largeBufferBase + p.2 < addrMax →
      addrMap nv addrMax (largeBufferBase + p.2) = some p.1) := by
  refine ⟨checkerVector_relayVector hnv, relayVector_checkerVector hnv,
    fun addrMax i b hb hi => addrMap_eq hb hi, fun addrMax L => addrMap_bijOn hnv,
    comparedPairs_fst_perm nv nv, ?_⟩
  intro entryMax addrMax p hp hlt
  obtain ⟨j, b, -, hb, rfl⟩ := mem_comparedPairs.mp hp
  rw [entryAddrFlex_eq_checkerVector hnv] at hlt ⊢
  rw [← Nat.add_assoc, addrMap_eq hb (by omega), relayVector_checkerVector hnv]

theorem addressMaps_agree_three :
    checkerVector 3 3 (relayVector 3 17) = 17 ∧
    addrMap 3 0x33500300 (largeBufferBase + 16 * 17 + 5) = some (16 * relayVector 3 17 + 5) :=
  have h := addressMaps_agree 3 (by decide)
  ⟨h.1 17, h.2.2.1 0x33500300 17 5 (by decide) (by decide)⟩

end ThreeLaSim
