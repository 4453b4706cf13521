import Mathlib.Data.Finset.Prod
import ThreeLaSim.Vta.Streams

/-!
# Micro-ops

`getGEMMUops` of the test library, and what a GEMM instruction makes of the micro-op buffer: for
every turn of its two loops and every micro-op in its range, one triple of SRAM slots.

* **`expand_getGEMMInsn`** — with or without compression, the GEMM of one virtual thread visits
  every (row, column, inner) block triple exactly once.
* **`compression_agrees`** — compression changes neither the triples a GEMM visits nor the sequence
  of slots an ALU instruction visits.
-/

namespace ThreeLaSim

open LoopNest
open scoped List

/-- `VTAUop`: slots in the accumulator, input and weight memories. -/
@[ext]
structure Uop where
  dstIdx : ℕ
  srcIdx : ℕ
  wgtIdx : ℕ
  deriving DecidableEq, Repr

/-- The micro-ops one thread needs, in the order the loops of `getGEMMUops` write them. -/
def threadUops (batch inFeat outFeat : ℕ) (uopCompression : Bool) (srcBase wgtBase : ℕ) :
    List Uop :=
  if !uopCompression then
    (List.range batch).flatMap fun i =>
      (List.range inFeat).flatMap fun j =>
        (List.range outFeat).map fun k =>
          ⟨i * outFeat + k, srcBase + i * inFeat + j, wgtBase + k * inFeat + j⟩
  else
    (List.range batch).map fun i => ⟨i * outFeat, srcBase + i * inFeat, wgtBase⟩

/-- `getGEMMUops`: the second thread's half works on slots shifted by one tile. -/
def getGEMMUops (batch inFeat outFeat : ℕ) (uopCompression multiThreaded : Bool) : List Uop :=
  threadUops batch inFeat outFeat uopCompression 0 0 ++
    if multiThreaded then
      threadUops batch inFeat outFeat uopCompression (batch * inFeat) (outFeat * inFeat)
    else []

/-- The slot triples a GEMM instruction visits. -/
def GemInsn.expand (g : GemInsn) (uops : List Uop) : List Uop :=
  (List.range g.iterOut).flatMap fun o =>
    (List.range g.iterIn).flatMap fun n =>
      ((uops.drop g.uopBgn).take (g.uopEnd - g.uopBgn)).map fun u =>
        ⟨u.dstIdx + o * g.dstFactorOut + n * g.dstFactorIn,
          u.srcIdx + o * g.srcFactorOut + n * g.srcFactorIn,
          u.wgtIdx + o * g.wgtFactorOut + n * g.wgtFactorIn⟩

/-- The number of micro-ops of one thread. -/
def threadUopCount (batch inFeat outFeat : ℕ) (uopCompression : Bool) : ℕ :=
  if uopCompression then batch else batch * inFeat * outFeat

/-- The block triples of one tile product: output row `r`, output column `c`, inner block `x`. -/
def tileTriples (batch inFeat outFeat : ℕ) : List (ℕ × ℕ × ℕ) :=
  (List.range batch).flatMap fun r =>
    (List.range outFeat).flatMap fun c => (List.range inFeat).map fun x => (r, c, x)

/-- The slots of a block triple. -/
def tripleSlots (inFeat outFeat srcBase wgtBase : ℕ) (t : ℕ × ℕ × ℕ) : Uop :=
  ⟨t.1 * outFeat + t.2.1, srcBase + t.1 * inFeat + t.2.2, wgtBase + t.2.1 * inFeat + t.2.2⟩

lemma length_threadUops (batch inFeat outFeat : ℕ) (uopCompression : Bool) (srcBase wgtBase : ℕ) :
    (threadUops batch inFeat outFeat uopCompression srcBase wgtBase).length
      = threadUopCount batch inFeat outFeat uopCompression := by
  cases uopCompression <;> simp [threadUops, threadUopCount, List.length_flatMap, Nat.mul_assoc]

/-- The micro-ops a GEMM of thread `e` works on. -/
lemma uops_of_thread (batch inFeat outFeat : ℕ) (uopCompression multiThreaded : Bool) {e : ℕ}
    (he : e = 0 ∨ e = 1 ∧ multiThreaded = true) :
    (((getGEMMUops batch inFeat outFeat uopCompression multiThreaded).drop
        (e * threadUopCount batch inFeat outFeat uopCompression)).take
        (threadUopCount batch inFeat outFeat uopCompression))
      = threadUops batch inFeat outFeat uopCompression (e * (batch * inFeat))
          (e * (outFeat * inFeat)) := by
  have hlen := length_threadUops batch inFeat outFeat uopCompression
  rcases he with rfl | ⟨rfl, rfl⟩
  · simp only [Nat.zero_mul, List.drop_zero, getGEMMUops]
    exact List.take_left' (hlen 0 0)
  · simp only [Nat.one_mul, getGEMMUops, if_true]
    rw [List.drop_left' (hlen 0 0), ← hlen (batch * inFeat) (outFeat * inFeat), List.take_length]

section Expand

variable (batch inFeat outFeat : ℕ) (multiThreaded : Bool) (dep : DepFlags) {e : ℕ}
  (he : e = 0 ∨ e = 1 ∧ multiThreaded = true)
include he

/-- Without compression a GEMM runs the micro-ops of its thread once: row, inner block, column. -/
lemma expand_plain :
    (getGEMMInsn (e * threadUopCount batch inFeat outFeat false) batch inFeat outFeat false
        dep).expand (getGEMMUops batch inFeat outFeat false multiThreaded) =
      (List.range batch).flatMap fun r => (List.range inFeat).flatMap fun x =>
        (List.range outFeat).map fun c =>
          tripleSlots inFeat outFeat (e * (batch * inFeat)) (e * (outFeat * inFeat)) (r, c, x) := by
  have huops := uops_of_thread batch inFeat outFeat false multiThreaded he
  calc _ = threadUops batch inFeat outFeat false (e * (batch * inFeat)) (e * (outFeat * inFeat)) := by
        rw [← huops]
        simp [GemInsn.expand, getGEMMInsn, threadUopCount]
    _ = _ := rfl

/-- With compression the two loops of the GEMM run over inner blocks and columns, and the micro-ops
over the rows. -/
lemma expand_compressed :
    (getGEMMInsn (e * threadUopCount batch inFeat outFeat true) batch inFeat outFeat true
        dep).expand (getGEMMUops batch inFeat outFeat true multiThreaded) =
      (List.range inFeat).flatMap fun x => (List.range outFeat).flatMap fun c =>
        (List.range batch).map fun r =>
          tripleSlots inFeat outFeat (e * (batch * inFeat)) (e * (outFeat * inFeat)) (r, c, x) := by
  have huops := uops_of_thread batch inFeat outFeat true multiThreaded he
  have hslice : e * threadUopCount batch inFeat outFeat true + batch
      - e * threadUopCount batch inFeat outFeat true
        = threadUopCount batch inFeat outFeat true := by
    rw [Nat.add_sub_cancel_left]
    rfl
  simp only [GemInsn.expand, getGEMMInsn, Bool.not_true, Bool.false_eq_true, if_false]
  refine List.flatMap_congr ?_
  intro x _
  refine List.flatMap_congr ?_
  intro c _
  rw [hslice, huops, threadUops, Bool.not_true, if_neg Bool.false_ne_true, List.map_map]
  refine List.map_congr_left ?_
  intro r _
  ext <;> simp [tripleSlots]
  omega

end Expand

/-- The triples in the order of rows, columns and inner blocks, in their slots. -/
lemma map_tileTriples {β : Type*} (f : ℕ × ℕ × ℕ → β) (batch inFeat outFeat : ℕ) :
    (tileTriples batch inFeat outFeat).map f =
      (List.range batch).flatMap fun r => (List.range outFeat).flatMap fun c =>
        (List.range inFeat).map fun x => f (r, c, x) := by
  simp only [tileTriples, List.map_flatMap, List.map_map]
  rfl

/-- **A tile product visits every block triple once**, in the slots of its thread. -/
theorem expand_getGEMMInsn (batch inFeat outFeat : ℕ) (uopCompression multiThreaded : Bool)
    (dep : DepFlags) {e : ℕ} (he : e = 0 ∨ e = 1 ∧ multiThreaded = true) :
    ((getGEMMInsn (e * threadUopCount batch inFeat outFeat uopCompression) batch inFeat outFeat
        uopCompression dep).expand
        (getGEMMUops batch inFeat outFeat uopCompression multiThreaded)).Perm
      ((tileTriples batch inFeat outFeat).map
        (tripleSlots inFeat outFeat (e * (batch * inFeat)) (e * (outFeat * inFeat)))) := by
  rw [map_tileTriples]
  set slots := tripleSlots inFeat outFeat (e * (batch * inFeat)) (e * (outFeat * inFeat))
  cases uopCompression with
  | false =>
      rw [expand_plain batch inFeat outFeat multiThreaded dep he]
      -- swap the inner blocks with the columns, in every row
      refine List.Perm.flatMap_left _ ?_
      intro r _
      exact flatMap_map_comm_perm (List.range inFeat) (List.range outFeat) fun x c => slots (r, c, x)
  | true =>
      rw [expand_compressed batch inFeat outFeat multiThreaded dep he]
      -- the rows come out past the columns, then past the inner blocks
      calc (List.range inFeat).flatMap fun x => (List.range outFeat).flatMap fun c =>
              (List.range batch).map fun r => slots (r, c, x)
          _ ~ (List.range inFeat).flatMap fun x => (List.range batch).flatMap fun r =>
              (List.range outFeat).map fun c => slots (r, c, x) :=
            List.Perm.flatMap_left _ fun x _ => flatMap_map_comm_perm _ _ fun c r => slots (r, c, x)
          _ ~ (List.range batch).flatMap fun r => (List.range inFeat).flatMap fun x =>
              (List.range outFeat).map fun c => slots (r, c, x) :=
            flatMap_comm_perm _ _ _
          _ ~ (List.range batch).flatMap fun r => (List.range outFeat).flatMap fun c =>
              (List.range inFeat).map fun x => slots (r, c, x) :=
            List.Perm.flatMap_left _ fun r _ => flatMap_map_comm_perm _ _ fun x c => slots (r, c, x)

/-! ## Compression -/

/-- `getMapALUUops`: destination and source slots; the third index stays unset. -/
def getMapALUUops (vectorSize : ℕ) (uopCompression : Bool) : List (ℕ × ℕ) :=
  if !uopCompression then (List.range vectorSize).map fun i => (i, vectorSize + i)
  else [(0, vectorSize)]

/-- The (destination, source) slots an ALU instruction visits. -/
def AluInsn.expand (a : AluInsn) (uops : List (ℕ × ℕ)) : List (ℕ × ℕ) :=
  (List.range a.iterOut).flatMap fun o =>
    (List.range a.iterIn).flatMap fun n =>
      ((uops.drop a.uopBgn).take (a.uopEnd - a.uopBgn)).map fun u =>
        (u.1 + o * a.dstFactorOut + n * a.dstFactorIn, u.2 + o * a.srcFactorOut + n * a.srcFactorIn)

/-- The uop offset `blocked_gemm_test` passes in thread `e`: `e * uop_size / virtual_threads`, where
`uop_size` counts the micro-ops of all threads. -/
def threadUopOffset (batch inFeat outFeat : ℕ) (uopCompression : Bool) (virtualThreads e : ℕ) : ℕ :=
  e * (threadUopCount batch inFeat outFeat uopCompression * virtualThreads) / virtualThreads

/-- What the GEMM of thread `e` computes on the micro-ops of `getGEMMUops`, order aside. -/
def gemmTriples (batch inFeat outFeat : ℕ) (multiThreaded : Bool) (dep : DepFlags)
    (virtualThreads e : ℕ) (uopCompression : Bool) : Multiset Uop :=
  (getGEMMInsn (threadUopOffset batch inFeat outFeat uopCompression virtualThreads e) batch inFeat
    outFeat uopCompression dep).expand (getGEMMUops batch inFeat outFeat uopCompression multiThreaded)

/-- Each block triple is listed once. -/
lemma coe_tileTriples (batch inFeat outFeat : ℕ) : (tileTriples batch inFeat outFeat : Multiset _)
    = (Finset.range batch ×ˢ Finset.range outFeat ×ˢ Finset.range inFeat).val := by
  have hinner : ∀ r : ℕ, ((List.range outFeat).flatMap fun c =>
      (List.range inFeat).map fun x => (r, c, x))
        = ((List.range outFeat).product (List.range inFeat)).map (Prod.mk r) := by
    intro r
    rw [List.product, List.map_flatMap]
    simp only [List.map_map]
    rfl
  rw [tileTriples, Finset.product_val, Finset.product_val, Finset.range_val, Finset.range_val,
    Finset.range_val]
  simp only [hinner, Multiset.range]
  rw [Multiset.coe_product, Multiset.coe_product]
  rfl

/-- The sequence of slots of an ALU instruction, with or without compression. -/
lemma expand_getALUInsn (opcode : AluOpcode) (vectorSize : ℕ) (useImm : Bool) (imm : ℤ)
    (uopCompression : Bool) (dep : DepFlags) :
    (getALUInsn opcode vectorSize useImm imm uopCompression dep).expand
        (getMapALUUops vectorSize uopCompression)
      = (List.range vectorSize).map fun i => (i, vectorSize + i) := by
  cases uopCompression with
  | false => simp [AluInsn.expand, getALUInsn, getMapALUUops, ← List.map_take]
  | true =>
      -- one turn of the inner loop for each slot
      simp [AluInsn.expand, getALUInsn, getMapALUUops, ← List.map_eq_flatMap]

/-- **Uop compression does not change what an instruction computes**: the GEMM of a thread visits,
with or without it, every triple of an output row `i`, an output column `k` and an inner block `j`
once, in the slots of the thread's half of the memories; an ALU instruction visits the same slots in
the same order, the two vectors side by side. -/
theorem compression_agrees (batch inFeat outFeat : ℕ) (multiThreaded : Bool) (dep : DepFlags)
    {virtualThreads e : ℕ} (hvt : 0 < virtualThreads) (he : e = 0 ∨ e = 1 ∧ multiThreaded = true) :
    gemmTriples batch inFeat outFeat multiThreaded dep virtualThreads e true
      = gemmTriples batch inFeat outFeat multiThreaded dep virtualThreads e false ∧
    (∀ uopCompression,
      gemmTriples batch inFeat outFeat multiThreaded dep virtualThreads e uopCompression
        = (Finset.range batch ×ˢ Finset.range outFeat ×ˢ Finset.range inFeat).val.map
            fun (i, k, j) => ⟨i * outFeat + k, e * (batch * inFeat) + i * inFeat + j,
              e * (outFeat * inFeat) + k * inFeat + j⟩) ∧
    (∀ opcode vectorSize useImm imm,
      (getALUInsn opcode vectorSize useImm imm true dep).expand (getMapALUUops vectorSize true)
        = (getALUInsn opcode vectorSize useImm imm false dep).expand
            (getMapALUUops vectorSize false)) ∧
    ∀ opcode vectorSize useImm imm uopCompression,
      (getALUInsn opcode vectorSize useImm imm uopCompression dep).expand
          (getMapALUUops vectorSize uopCompression)
        = (List.range vectorSize).map fun i => (i, vectorSize + i) := by
  have htriples : ∀ c, gemmTriples batch inFeat outFeat multiThreaded dep virtualThreads e c
      = (Finset.range batch ×ˢ Finset.range outFeat ×ˢ Finset.range inFeat).val.map
          (tripleSlots inFeat outFeat (e * (batch * inFeat)) (e * (outFeat * inFeat))) := by
    intro c
    have hoffset : threadUopOffset batch inFeat outFeat c virtualThreads e
        = e * threadUopCount batch inFeat outFeat c := by
      rw [threadUopOffset, ← Nat.mul_assoc, Nat.mul_div_cancel _ hvt]
    rw [gemmTriples, hoffset, ← coe_tileTriples, Multiset.map_coe, Multiset.coe_eq_coe]
    exact expand_getGEMMInsn batch inFeat outFeat c multiThreaded dep he
  refine ⟨?_, ?_, ?_, ?_⟩
  · rw [htriples true, htriples false]
  · intro c
    exact htriples c
  · intro opcode vectorSize useImm imm
    rw [expand_getALUInsn, expand_getALUInsn]
  · intro opcode vectorSize useImm imm c
    exact expand_getALUInsn opcode vectorSize useImm imm c dep

/-- The second of two threads, on a tile that is not square, and a vector operation. -/
theorem compression_agrees_second :
    gemmTriples 2 3 5 true ⟨true, false, false, true⟩ 2 1 true
      = gemmTriples 2 3 5 true ⟨true, false, false, true⟩ 2 1 false ∧
    (getALUInsn .add 8 false 0 true ⟨true, false, false, true⟩).expand (getMapALUUops 8 true)
      = (getALUInsn .add 8 false 0 false ⟨true, false, false, true⟩).expand
          (getMapALUUops 8 false) := by
  obtain ⟨hgemm, -, halu, -⟩ := compression_agrees 2 3 5 true ⟨true, false, false, true⟩
    (by decide : 0 < 2) (.inr ⟨rfl, rfl⟩)
  exact ⟨hgemm, halu .add 8 false 0⟩

end ThreeLaSim
