import Mathlib.Data.List.Perm.Subperm
import Mathlib.Data.List.Nodup
import Mathlib.Data.List.Range
import Mathlib.Logic.Function.Basic
import ThreeLaSim.Core.History

/-!
# Memories written in blocks

A memory maps addresses to what was last stored there.  `storeBlock` stores a block of `W` bytes;
all blocks here lie at multiples of `W`, so a byte belongs to one block and shows the last store to
it.

* `foldl_storeBlock_apply` — a memory after a list of stores, each to the block of its key.
* `foldl_zipIdx_storeBlock_apply` — the same when the `i`-th store goes to the block `g i` for an
  injective `g`.
* **`getElem?_eq_lastBy_iff`** — when reading a list by position is reading it by key.
-/

namespace BlockStore

open History

variable {β γ : Type*}

/-- A memory; none where nothing was stored. -/
abbrev Mem (β : Type*) := ℕ → Option β

/-- Store `f 0, …, f (n - 1)` from address `a` on. -/
def storeBlock (m : Mem β) (a n : ℕ) (f : ℕ → β) : Mem β := fun b =>
  if a ≤ b ∧ b < a + n then some (f (b - a)) else m b

/-- Only the stored bytes matter. -/
lemma storeBlock_congr {n : ℕ} {f g : ℕ → β} (h : ∀ j < n, f j = g j) (m : Mem β) (a : ℕ) :
    storeBlock m a n f = storeBlock m a n g := by
  funext b
  unfold storeBlock
  split
  · next hb => rw [h (b - a) (by omega)]
  · rfl

/-- Storing a block twice is storing it once. -/
lemma storeBlock_storeBlock (m : Mem β) (a n : ℕ) (f : ℕ → β) :
    storeBlock (storeBlock m a n f) a n f = storeBlock m a n f := by
  funext b
  unfold storeBlock
  split <;> rfl

/-- Storing the bytes of a block one by one. -/
theorem foldl_update_eq_storeBlock (m : Mem β) (a : ℕ) (f : ℕ → β) : ∀ n,
    (List.range n).foldl (fun m j => Function.update m (a + j) (some (f j))) m
      = storeBlock m a n f
  | 0 => by
      funext b
      have hno : ¬ (a ≤ b ∧ b < a + 0) := by omega
      simp only [List.range_zero, List.foldl_nil, storeBlock, if_neg hno]
  | n + 1 => by
      rw [List.range_succ, List.foldl_append, foldl_update_eq_storeBlock m a f n]
      funext b
      simp only [List.foldl_cons, List.foldl_nil, Function.update_apply, storeBlock]
      by_cases hb : b = a + n
      · have hin : a ≤ b ∧ b < a + (n + 1) := by omega
        rw [if_pos hb, if_pos hin, hb, Nat.add_sub_cancel_left]
      · have hiff : (a ≤ b ∧ b < a + (n + 1)) ↔ a ≤ b ∧ b < a + n := by omega
        simp only [if_neg hb, hiff]

/-- A byte sees the stores to its own block only. -/
lemma storeBlock_mul_apply {W : ℕ} (m : Mem β) (q k : ℕ) (f : ℕ → β) {j : ℕ} (hj : j < W) :
    storeBlock m (W * q) W f (W * k + j) = if q = k then some (f j) else m (W * k + j) := by
  unfold storeBlock
  by_cases h : q = k
  · subst h
    rw [if_pos (by omega), if_pos rfl, Nat.add_sub_cancel_left]
  · have hno : ¬ (W * q ≤ W * k + j ∧ W * k + j < W * q + W) := by
      rintro ⟨h₁, h₂⟩
      have hle : q ≤ k := by
        have : W * q < W * (k + 1) := by rw [Nat.mul_succ]; omega
        exact Nat.lt_succ_iff.mp (Nat.lt_of_mul_lt_mul_left this)
      have hge : k ≤ q := by
        have : W * k < W * (q + 1) := by rw [Nat.mul_succ]; omega
        exact Nat.lt_succ_iff.mp (Nat.lt_of_mul_lt_mul_left this)
      exact h (Nat.le_antisymm hle hge)
    rw [if_neg hno, if_neg h]

/-- The last entry with a key. -/
def lastBy (key : γ → ℕ) (ops : List γ) (k : ℕ) : Option γ := (ops.filter (key · = k)).getLast?

lemma lastBy_eq_lastWhere (key : γ → ℕ) (ops : List γ) (k : ℕ) :
    lastBy key ops k = lastWhere (key · = k) ops := List.getLast?_filter

lemma lastBy_concat (key : γ → ℕ) (ops : List γ) (o : γ) (k : ℕ) :
    lastBy key (ops ++ [o]) k = if key o = k then some o else lastBy key ops k := by
  simp [lastBy_eq_lastWhere]

lemma mem_of_lastBy {key : γ → ℕ} {ops : List γ} {k : ℕ} {o : γ} (h : lastBy key ops k = some o) :
    o ∈ ops ∧ key o = k := by
  rw [lastBy_eq_lastWhere] at h
  simpa using mem_of_lastWhere h

lemma lastBy_eq_none_iff {key : γ → ℕ} {ops : List γ} {k : ℕ} :
    lastBy key ops k = none ↔ ∀ o ∈ ops, key o ≠ k := by
  simp [lastBy]

/-- **A memory after stores by key** shows the last store to each block. -/
theorem foldl_storeBlock_apply {W : ℕ} (key : γ → ℕ) (word : γ → ℕ → β) (ops : List γ) (k : ℕ)
    {j : ℕ} (hj : j < W) :
    ops.foldl (fun m o => storeBlock m (W * key o) W (word o)) (fun _ => none) (W * k + j)
      = (lastBy key ops k).map (word · j) := by
  induction ops using List.reverseRecOn with
  | nil => rfl
  | append_singleton ops o ih =>
      rw [List.foldl_append, lastBy_concat]
      simp only [List.foldl_cons, List.foldl_nil]
      rw [storeBlock_mul_apply _ _ _ _ hj, ih]
      split <;> rfl

/-- **A memory after stores by position.** -/
theorem foldl_zipIdx_storeBlock_apply {W : ℕ} {g : ℕ → ℕ} (hg : Function.Injective g)
    (word : γ → ℕ → β) (ops : List γ) (v : ℕ) {j : ℕ} (hj : j < W) :
    ops.zipIdx.foldl (fun m p => storeBlock m (W * g p.2) W (word p.1)) (fun _ => none)
      (W * g v + j) = ops[v]?.map (word · j) := by
  induction ops using List.reverseRecOn with
  | nil => rfl
  | append_singleton ops o ih =>
      rw [List.zipIdx_append, List.foldl_append]
      simp only [List.zipIdx_singleton, List.foldl_cons, List.foldl_nil, Nat.zero_add]
      rw [storeBlock_mul_apply _ _ _ _ hj, ih]
      by_cases h : ops.length = v
      · subst h
        simp
      · rw [if_neg (fun hgv => h (hg hgv))]
        rcases Nat.lt_or_gt_of_ne h with hlt | hgt
        · rw [List.getElem?_eq_none (by omega), List.getElem?_eq_none (by simp; omega)]
        · rw [List.getElem?_append_left hgt]

/-- Entries whose keys cover all positions of a list have as many distinct keys. -/
lemma range_subperm {key : γ → ℕ} {ops : List γ} {n : ℕ} (h : ∀ i < n, ∃ q ∈ ops, key q = i) :
    (List.range n).Subperm (ops.map key) :=
  List.nodup_range.subperm fun i hi => by
    obtain ⟨q, hq, hkey⟩ := h i (List.mem_range.mp hi)
    exact List.mem_map.mpr ⟨q, hq, hkey⟩

/-- **Reading by position is reading by key** exactly when no entry was left out of the keyed list
and every position is the key of an entry with the value found there. -/
theorem getElem?_eq_lastBy_iff {δ : Type*} {key : γ → ℕ} {val : γ → δ} {ops acc : List γ}
    (hsub : ops.Sublist acc) :
    (∀ k, acc[k]?.map val = (lastBy key ops k).map val) ↔
      ops = acc ∧ ∀ i r, acc[i]? = some r → ∃ q ∈ acc, key q = i ∧ val q = val r := by
  constructor
  · intro h
    have hplaced : ∀ i r, acc[i]? = some r → ∃ q ∈ ops, key q = i ∧ val q = val r := by
      intro i r hr
      have hi := h i
      rw [hr, Option.map_some] at hi
      obtain ⟨q, hq, hval⟩ := Option.map_eq_some_iff.mp hi.symm
      exact ⟨q, (mem_of_lastBy hq).1, (mem_of_lastBy hq).2, hval⟩
    -- there are as many keys as positions, so nothing was left out
    have hlen : acc.length ≤ ops.length := by
      have hcover : ∀ i < acc.length, ∃ q ∈ ops, key q = i := by
        intro i hi
        obtain ⟨q, hq, hkey, -⟩ := hplaced i acc[i] (List.getElem?_eq_getElem hi)
        exact ⟨q, hq, hkey⟩
      simpa using (range_subperm hcover).length_le
    obtain rfl := hsub.eq_of_length_le hlen
    exact ⟨rfl, hplaced⟩
  · rintro ⟨rfl, hplaced⟩ k
    have hcover : ∀ i < ops.length, ∃ q ∈ ops, key q = i := by
      intro i hi
      obtain ⟨q, hq, hkey, -⟩ := hplaced i ops[i] (List.getElem?_eq_getElem hi)
      exact ⟨q, hq, hkey⟩
    have hperm : (List.range ops.length).Perm (ops.map key) :=
      (range_subperm hcover).perm_of_length_le (by simp)
    by_cases hk : k < ops.length
    · obtain ⟨q, hq, hkey, hval⟩ := hplaced k ops[k] (List.getElem?_eq_getElem hk)
      cases hlast : lastBy key ops k with
      | none => exact absurd hkey (lastBy_eq_none_iff.mp hlast q hq)
      | some o =>
          obtain ⟨ho, hokey⟩ := mem_of_lastBy hlast
          -- keys are distinct, so the last entry is the one with the value
          have hnodup := hperm.nodup_iff.mp List.nodup_range
          obtain rfl := List.inj_on_of_nodup_map hnodup ho hq (hokey.trans hkey.symm)
          rw [List.getElem?_eq_getElem hk, Option.map_some, Option.map_some, hval]
    · have hnone : lastBy key ops k = none := lastBy_eq_none_iff.mpr fun o ho hkey => by
        have hmem := hperm.mem_iff.mpr (List.mem_map.mpr ⟨o, ho, hkey⟩)
        exact hk (List.mem_range.mp hmem)
      rw [hnone, List.getElem?_eq_none (by omega)]

end BlockStore
