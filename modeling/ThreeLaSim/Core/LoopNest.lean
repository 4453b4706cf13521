import Mathlib.Data.List.Range
import Mathlib.Data.List.Perm.Basic
import Mathlib.Tactic.Ring

/-!
# Nests of counting loops

`upTo hi step` lists the values of `for (x = 0; x < hi; x += step)`.  A nest of two loops over
ranges is one loop over the product (`flatMap_range_mul`), and what a loop body is framed by can be
pushed into its first and last turn (`flatMap_range_frame`).  A matrix visited block by block is
visited entry by entry: `blockPos` numbers the turns, `blockRow` and `blockCol` take a turn apart.
-/

namespace LoopNest

/-- The values of `for (x = 0; x < hi; x += step)`, for a positive step. -/
def upTo (hi step : ℕ) : List ℕ := (List.range ((hi + step - 1) / step)).map (· * step)

/-- A loop whose bound is a multiple of its step. -/
lemma upTo_mul {n step : ℕ} (hstep : 0 < step) :
    upTo (n * step) step = (List.range n).map (· * step) := by
  have : (n * step + step - 1) / step = n := by
    rw [Nat.add_sub_assoc hstep, Nat.mul_comm, Nat.mul_add_div hstep,
      Nat.div_eq_of_lt (by omega), Nat.add_zero]
  rw [upTo, this]

lemma mem_upTo {hi step x : ℕ} (hstep : 0 < step) : x ∈ upTo hi step ↔ step ∣ x ∧ x < hi := by
  simp only [upTo, List.mem_map, List.mem_range]
  constructor
  · rintro ⟨k, hk, rfl⟩
    refine ⟨Nat.dvd_mul_left step k, ?_⟩
    have := (Nat.le_div_iff_mul_le hstep).mp (Nat.succ_le_of_lt hk)
    rw [Nat.succ_mul] at this
    omega
  · rintro ⟨⟨k, rfl⟩, hk⟩
    refine ⟨k, ?_, Nat.mul_comm k step⟩
    refine Nat.lt_of_succ_le ((Nat.le_div_iff_mul_le hstep).mpr ?_)
    rw [Nat.succ_mul, Nat.mul_comm k]
    omega

/-- A whole number of steps below the bound is a turn. -/
lemma mul_mem_upTo {hi step q : ℕ} (hstep : 0 < step) (hdvd : step ∣ hi) (hq : q < hi / step) :
    q * step ∈ upTo hi step := by
  refine (mem_upTo hstep).mpr ⟨Nat.dvd_mul_left step q, ?_⟩
  calc q * step < hi / step * step := Nat.mul_lt_mul_of_pos_right hq hstep
    _ = hi := Nat.div_mul_cancel hdvd

/-- The turn of a loop over tiles of `step` entries in which unit `r` of `b` entries lies. -/
lemma tile_mem_upTo {hi step b r : ℕ} (hstep : 0 < step) (hb : b ∣ step) (hdvd : step ∣ hi)
    (hr : r < hi / b) : r / (step / b) * step ∈ upTo hi step := by
  refine mul_mem_upTo hstep hdvd (Nat.div_lt_of_lt_mul ?_)
  rwa [Nat.div_mul_div_comm hb hdvd, Nat.mul_comm step, Nat.mul_div_mul_right _ _ hstep]

/-- The last turn of the flattened loop is the last turn of both loops. -/
lemma succ_eq_mul_iff {n : ℕ} (hn : 0 < n) (s m : ℕ) :
    s + 1 = m * n ↔ s / n + 1 = m ∧ s % n + 1 = n := by
  have hdiv := Nat.div_add_mod' s n
  have hlt := Nat.mod_lt s hn
  constructor
  · intro hs
    have hdvd : n ∣ s % n + 1 := by
      refine (Nat.dvd_add_right (Nat.dvd_mul_left n (s / n))).mp ?_
      rw [← Nat.add_assoc, hdiv, hs]
      exact Nat.dvd_mul_left n m
    have hmod : s % n + 1 = n := le_antisymm hlt (Nat.le_of_dvd (by omega) hdvd)
    refine ⟨Nat.eq_of_mul_eq_mul_right hn ?_, hmod⟩
    rw [Nat.succ_mul]
    omega
  · rintro ⟨hm, hmod⟩
    rw [← hm, Nat.succ_mul]
    omega

/-- The inner loop index in the next turn of the flattened loop. -/
lemma succ_mod {n : ℕ} (hn : 0 < n) (s : ℕ) :
    (s + 1) % n = if s % n + 1 = n then 0 else s % n + 1 := by
  have hlt := Nat.mod_lt s hn
  have hs : s + 1 = n * (s / n) + (s % n + 1) := by rw [← Nat.add_assoc, Nat.div_add_mod]
  rw [hs, Nat.mul_add_mod]
  split_ifs with h
  · rw [h, Nat.mod_self]
  · exact Nat.mod_eq_of_lt (by omega)

/-- The turns of the flattened loop: the inner loop ends, or goes on. -/
lemma succ_div_mod {r : ℕ} (hr : 0 < r) (n : ℕ) :
    (n % r = r - 1 ∧ (n + 1) / r = n / r + 1 ∧ (n + 1) % r = 0) ∨
    (n % r + 1 < r ∧ (n + 1) / r = n / r ∧ (n + 1) % r = n % r + 1) := by
  have hlt := Nat.mod_lt n hr
  have hmod := succ_mod hr n
  have hs : n + 1 = r * (n / r) + (n % r + 1) := by rw [← Nat.add_assoc, Nat.div_add_mod]
  by_cases hend : n % r + 1 = r
  · left
    rw [if_pos hend] at hmod
    refine ⟨by omega, ?_, hmod⟩
    rw [hs, hend, Nat.mul_add_div hr, Nat.div_self hr]
  · right
    rw [if_neg hend] at hmod
    have hmid : n % r + 1 < r := by omega
    refine ⟨hmid, ?_, hmod⟩
    rw [hs, Nat.mul_add_div hr, Nat.div_eq_of_lt hmid, Nat.add_zero]

/-- A turn of the flattened loop is the first one when both loops are in their first turn. -/
lemma pos_iff_div_or_mod (n s : ℕ) : 0 < s ↔ 0 < s / n ∨ 0 < s % n := by
  constructor
  · intro hs
    by_contra hno
    rw [not_or, Nat.not_lt, Nat.le_zero, Nat.not_lt, Nat.le_zero] at hno
    have hdiv := Nat.div_add_mod' s n
    rw [hno.1, hno.2, Nat.zero_mul] at hdiv
    omega
  · rintro (h | h)
    · exact Nat.pos_of_ne_zero fun h0 => by simp [h0] at h
    · exact Nat.pos_of_ne_zero fun h0 => by simp [h0] at h

variable {α : Type*}

/-- Two nested loops are one loop over the product. -/
theorem flatMap_range_mul (b : ℕ) (f : ℕ → ℕ → List α) :
    ∀ a, (List.range a).flatMap (fun x => (List.range b).flatMap (f x))
      = (List.range (a * b)).flatMap fun z => f (z / b) (z % b)
  | 0 => by simp
  | a + 1 => by
      rw [List.range_succ, List.flatMap_append, flatMap_range_mul b f a, Nat.succ_mul,
        List.range_add, List.flatMap_append, List.flatMap_singleton, List.flatMap_map]
      congr 1
      refine List.flatMap_congr fun y hy => ?_
      have hy' : y < b := List.mem_range.mp hy
      rw [Nat.mul_comm a b, Nat.mul_add_div (by omega), Nat.div_eq_of_lt hy', Nat.add_zero,
        Nat.mul_add_mod, Nat.mod_eq_of_lt hy']

/-- Two nested loops, the inner one yielding one value a turn. -/
lemma flatMap_range_map (b : ℕ) (f : ℕ → ℕ → α) (a : ℕ) :
    (List.range a).flatMap (fun x => (List.range b).map (f x))
      = (List.range (a * b)).map fun z => f (z / b) (z % b) := by
  have h := flatMap_range_mul b (fun x y => [f x y]) a
  simpa only [List.flatMap_singleton', ← List.map_eq_flatMap] using h

/-- Two loops may be exchanged, up to the order of the results. -/
lemma flatMap_comm_perm {β γ : Type*} (l' : List γ) (g : β → γ → List α) :
    ∀ l : List β, (l.flatMap fun x => l'.flatMap (g x)).Perm (l'.flatMap fun y => l.flatMap (g · y))
  | [] => by simp
  | x :: l => by
      simp only [List.flatMap_cons]
      exact ((flatMap_comm_perm l' g l).append_left _).trans (List.flatMap_append_perm l' _ _)

/-- The exchange when the inner loop yields one value a turn. -/
lemma flatMap_map_comm_perm {β γ : Type*} (l : List β) (l' : List γ) (f : β → γ → α) :
    (l.flatMap fun x => l'.map (f x)).Perm (l'.flatMap fun y => l.map (f · y)) := by
  simp only [List.map_eq_flatMap]
  exact flatMap_comm_perm l' (fun x y => [f x y]) l

/-- A loop whose turns all write `n` items writes those of turn `i` from item `i * n` on. -/
lemma flatMap_range_slice (f : ℕ → List α) {n : ℕ} (hf : ∀ x, (f x).length = n) :
    ∀ m i, i < m → (((List.range m).flatMap f).drop (i * n)).take n = f i
  | 0, _, hi => absurd hi (Nat.not_lt_zero _)
  | m + 1, i, hi => by
      have hlen : ((List.range m).flatMap f).length = m * n := by
        simp [List.length_flatMap, hf]
      rw [List.range_succ, List.flatMap_append, List.flatMap_singleton]
      rcases Nat.lt_or_eq_of_le (Nat.le_of_lt_succ hi) with hlt | rfl
      · have hle : i * n + n ≤ m * n := by
          rw [← Nat.succ_mul]
          exact Nat.mul_le_mul_right n hlt
        rw [List.drop_append_of_le_length (by omega), List.take_append_of_le_length,
          flatMap_range_slice f hf m i hlt]
        rw [List.length_drop]
        omega
      · rw [List.drop_left' hlen, ← hf i, List.take_length]

/-- What stands before and after a loop, pushed into its first and last turn. -/
theorem flatMap_range_frame (head last : List α) (f : ℕ → List α) {n : ℕ} (hn : 0 < n) :
    head ++ (List.range n).flatMap f ++ last
      = (List.range n).flatMap fun x =>
          (if x = 0 then head else []) ++ f x ++ (if x + 1 = n then last else []) := by
  obtain ⟨m, rfl⟩ : ∃ m, n = m + 1 := ⟨n - 1, by omega⟩
  -- the turns before the last one carry only the head
  have hbody : ∀ k ≤ m, (List.range k).flatMap (fun x =>
      (if x = 0 then head else []) ++ f x ++ (if x + 1 = m + 1 then last else []))
        = if k = 0 then [] else head ++ (List.range k).flatMap f := by
    intro k hk
    induction k with
    | zero => simp
    | succ k ih =>
        rw [List.range_succ, List.flatMap_append, ih (by omega), List.flatMap_append]
        have hlast : k ≠ m := by omega
        cases k with
        | zero => simp [hlast]
        | succ k => simp [hlast]
  rw [List.range_succ, List.flatMap_append, List.flatMap_append, hbody m le_rfl]
  cases m with
  | zero => simp
  | succ m => simp

/-! ## Matrices visited block by block -/

section Blocks

/-- The row a loop over blocks of `h` rows and `w` columns, `n` blocks to a row of blocks, is at in
its turn `z`. -/
def blockRow (h w n z : ℕ) : ℕ := z / (h * w) / n * h + z % (h * w) / w

/-- The column it is at in its turn `z`. -/
def blockCol (h w n z : ℕ) : ℕ := z / (h * w) % n * w + z % (h * w) % w

/-- The turn in which it visits row `y`, column `x`. -/
def blockPos (h w n y x : ℕ) : ℕ := (y / h * n + x / w) * (h * w) + (y % h * w + x % w)

variable {h w n : ℕ}

/-- A loop over the blocks with a loop over the rows and columns of a block, as one loop. -/
theorem flatMap_range_blocks {α : Type*} (m n h w : ℕ) (f : ℕ → ℕ → ℕ → ℕ → α) :
    ((List.range m).flatMap fun i => (List.range n).flatMap fun j =>
      (List.range h).flatMap fun k => (List.range w).map fun l => f i j k l)
      = (List.range (m * n * (h * w))).map fun z =>
          f (z / (h * w) / n) (z / (h * w) % n) (z % (h * w) / w) (z % (h * w) % w) := by
  have hinner : ∀ i j, ((List.range h).flatMap fun k => (List.range w).map fun l => f i j k l)
      = (List.range (h * w)).map fun b => f i j (b / w) (b % w) := by
    intro i j
    exact flatMap_range_map w (fun k l => f i j k l) h
  simp only [hinner]
  rw [flatMap_range_mul n fun i j => (List.range (h * w)).map fun b => f i j (b / w) (b % w)]
  exact flatMap_range_map (h * w) (fun b z => f (b / n) (b % n) (z / w) (z % w)) (m * n)

/-- Two coordinates of a number. -/
lemma mul_add_div_mod {a b c : ℕ} (hb : b < c) : (a * c + b) / c = a ∧ (a * c + b) % c = b := by
  rw [Nat.mul_comm a, Nat.mul_add_div (by omega), Nat.div_eq_of_lt hb, Nat.mul_add_mod,
    Nat.mod_eq_of_lt hb]
  exact ⟨rfl, rfl⟩

lemma mul_add_lt {a b c d : ℕ} (ha : a < d) (hb : b < c) : a * c + b < d * c :=
  calc a * c + b < a * c + c := by omega
    _ = (a + 1) * c := by ring
    _ ≤ d * c := Nat.mul_le_mul_right c ha

/-- A turn in coordinates: the block, and the row and column inside it. -/
lemma blockRow_blockCol_mk {i j k l : ℕ} (hj : j < n) (hk : k < h) (hl : l < w) :
    blockRow h w n ((i * n + j) * (h * w) + (k * w + l)) = i * h + k ∧
    blockCol h w n ((i * n + j) * (h * w) + (k * w + l)) = j * w + l := by
  obtain ⟨hdiv, hmod⟩ := mul_add_div_mod (mul_add_lt hk hl)
  obtain ⟨hdiv', hmod'⟩ := mul_add_div_mod (a := i) hj
  obtain ⟨hdiv'', hmod''⟩ := mul_add_div_mod (a := k) hl
  rw [blockRow, blockCol, hdiv, hmod, hdiv', hmod', hdiv'', hmod'']
  exact ⟨rfl, rfl⟩

/-- The turn of a matrix entry in coordinates. -/
lemma blockPos_mk {i j k l : ℕ} (hk : k < h) (hl : l < w) :
    blockPos h w n (i * h + k) (j * w + l) = (i * n + j) * (h * w) + (k * w + l) := by
  obtain ⟨hdiv, hmod⟩ := mul_add_div_mod (a := i) hk
  obtain ⟨hdiv', hmod'⟩ := mul_add_div_mod (a := j) hl
  rw [blockPos, hdiv, hmod, hdiv', hmod']

/-- **A turn is the one in which its entry is visited**, and its entry lies inside the matrix. -/
theorem blockPos_blockRow_blockCol {m z : ℕ} (hz : z < m * n * (h * w)) :
    blockPos h w n (blockRow h w n z) (blockCol h w n z) = z ∧
    blockRow h w n z < m * h ∧ blockCol h w n z < n * w := by
  have hmn : 0 < m * n := Nat.pos_of_ne_zero fun h0 => by simp [h0] at hz
  have hhw : 0 < h * w := Nat.pos_of_ne_zero fun h0 => by simp [h0] at hz
  have hn : 0 < n := Nat.pos_of_mul_pos_left hmn
  have hw : 0 < w := Nat.pos_of_mul_pos_left hhw
  have hblock : z / (h * w) < m * n := Nat.div_lt_of_lt_mul (by rwa [Nat.mul_comm])
  have hi : z / (h * w) / n < m := Nat.div_lt_of_lt_mul (by rwa [Nat.mul_comm n])
  have hj : z / (h * w) % n < n := Nat.mod_lt _ hn
  have hk : z % (h * w) / w < h := Nat.div_lt_of_lt_mul (by
    rw [Nat.mul_comm w]
    exact Nat.mod_lt _ hhw)
  have hl : z % (h * w) % w < w := Nat.mod_lt _ hw
  refine ⟨?_, mul_add_lt hi hk, mul_add_lt hj hl⟩
  rw [blockRow, blockCol, blockPos_mk hk hl, Nat.div_add_mod', Nat.div_add_mod', Nat.div_add_mod']

/-- **An entry of the matrix is visited in its turn.** -/
theorem blockRow_blockCol_blockPos {m y x : ℕ} (hy : y < m * h) (hx : x < n * w) :
    blockRow h w n (blockPos h w n y x) = y ∧ blockCol h w n (blockPos h w n y x) = x ∧
    blockPos h w n y x < m * n * (h * w) := by
  have hh : 0 < h := Nat.pos_of_ne_zero fun h0 => by simp [h0] at hy
  have hw : 0 < w := Nat.pos_of_ne_zero fun h0 => by simp [h0] at hx
  have hi : y / h < m := Nat.div_lt_of_lt_mul (by rwa [Nat.mul_comm])
  have hj : x / w < n := Nat.div_lt_of_lt_mul (by rwa [Nat.mul_comm])
  have hk : y % h < h := Nat.mod_lt y hh
  have hl : x % w < w := Nat.mod_lt x hw
  obtain ⟨hrow, hcol⟩ := blockRow_blockCol_mk (i := y / h) hj hk hl
  rw [blockPos, hrow, hcol, Nat.div_add_mod', Nat.div_add_mod']
  exact ⟨rfl, rfl, mul_add_lt (mul_add_lt hi hj) (mul_add_lt hk hl)⟩

end Blocks

/-! ### Blocks counted through -/

section BlockEntry

variable {α : Type*} {h w : ℕ} (hh : 0 < h) (hw : 0 < w)

/-- Entry `z` of a sequence of blocks, row by row. -/
def blockEntry (block : ℕ → Fin h → Fin w → α) (z : ℕ) : α :=
  block (z / (h * w))
    ⟨z % (h * w) / w, Nat.div_lt_of_lt_mul (by
      rw [Nat.mul_comm w]
      exact Nat.mod_lt z (Nat.mul_pos hh hw))⟩
    ⟨z % (h * w) % w, Nat.mod_lt _ hw⟩

/-- The entries of a block are numbered from the block's number on. -/
lemma blockEntry_mk (block : ℕ → Fin h → Fin w → α) (b : ℕ) (r : Fin h) (c : Fin w) :
    blockEntry hh hw block (b * (h * w) + (r * w + c)) = block b r c := by
  obtain ⟨hdiv, hmod⟩ := mul_add_div_mod (a := b) (mul_add_lt r.isLt c.isLt : _ < h * w)
  obtain ⟨hdiv', hmod'⟩ := mul_add_div_mod (a := r) c.isLt
  simp only [blockEntry, hdiv, hmod, hdiv', hmod']

/-- Blocks whose entries are known. -/
lemma eq_of_blockEntry {block : ℕ → Fin h → Fin w → α} {f : ℕ → α} {n b : ℕ}
    (hf : ∀ z < n * (h * w), blockEntry hh hw block z = f z) (hb : b < n) :
    block b = fun (r : Fin h) (c : Fin w) => f (b * (h * w) + (r * w + c)) := by
  funext r c
  rw [← hf _ (mul_add_lt hb (mul_add_lt r.isLt c.isLt)), blockEntry_mk]

/-- Blocks with one entry changed. -/
def updateEntry (block : ℕ → Fin h → Fin w → α) (z : ℕ) (v : α) (b : ℕ) (r : Fin h) (c : Fin w) : α :=
  if b * (h * w) + (r * w + c) = z then v else block b r c

lemma blockEntry_updateEntry (block : ℕ → Fin h → Fin w → α) (z : ℕ) (v : α) :
    blockEntry hh hw (updateEntry block z v) = Function.update (blockEntry hh hw block) z v := by
  funext z'
  have hpos : z' / (h * w) * (h * w) + (z' % (h * w) / w * w + z' % (h * w) % w) = z' := by
    rw [Nat.div_add_mod', Nat.div_add_mod']
  by_cases heq : z' = z
  · rw [heq, Function.update_self, blockEntry, updateEntry, ← heq, if_pos hpos]
  · rw [Function.update_of_ne heq, blockEntry, updateEntry, if_neg (by rwa [hpos]), blockEntry]

end BlockEntry

end LoopNest
