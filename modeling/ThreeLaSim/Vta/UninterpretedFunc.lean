import ThreeLaSim.Core.FixedWidth
import ThreeLaSim.Vta.Streams

/-!
# The arithmetic of the VTA simulation model

The functions of `uninterpreted_func.cc`, which the simulation model calls for its arithmetic, and
the reference computations of the test library they are meant to agree with.  A port of `w` bits is
a `BitVec w`.  Every function first reads its ports as signed numbers (`toInt`) and writes each
intermediate variable at its declared width (`BitVec.ofInt`).

* **`gemm_eq_refGemm`** — block-wise multiply-accumulate gives the byte of the reference GEMM, no
  block sum wraps, and the partition into blocks does not matter.
* **`AluTest.simOutputs_eq`** — the ALU functions give the bytes of the reference ALU.
-/

namespace ThreeLaSim

open FixedWidth

/-! ## The functions -/

/-- `Acc2Out`. -/
def acc2Out (inp : BitVec 32) : BitVec 8 :=
  let src : BitVec 32 := .ofInt 32 inp.toInt
  let out : BitVec 8 := src.extractLsb' 0 8
  .ofInt 8 out.toInt

/-- `AccAdd`. -/
def accAdd (in0 in1 : BitVec 32) : BitVec 32 :=
  let src0 : BitVec 32 := .ofInt 32 in0.toInt
  let src1 : BitVec 32 := .ofInt 32 in1.toInt
  let addVal : BitVec 32 := .ofInt 32 (src0.toInt + src1.toInt)
  .ofInt 32 addVal.toInt

/-- `AccMax`. -/
def accMax (in0 in1 : BitVec 32) : BitVec 32 :=
  let src0 : BitVec 32 := .ofInt 32 in0.toInt
  let src1 : BitVec 32 := .ofInt 32 in1.toInt
  let out : BitVec 32 := if src0.toInt > src1.toInt then src0 else src1
  .ofInt 32 out.toInt

/-- `AccMin`. -/
def accMin (in0 in1 : BitVec 32) : BitVec 32 :=
  let src0 : BitVec 32 := .ofInt 32 in0.toInt
  let src1 : BitVec 32 := .ofInt 32 in1.toInt
  let out : BitVec 32 := if src0.toInt < src1.toInt then src0 else src1
  .ofInt 32 out.toInt

/-- `ap_int_base::operator>>` with a signed shift count: a negative count shifts left. -/
def apShr {w w₂ : ℕ} (x : BitVec w) (op2 : BitVec w₂) : BitVec w :=
  let isNeg : Bool := op2.getLsbD (w₂ - 1)
  if isNeg then
    let sh : BitVec w₂ := .ofInt w₂ (0 - op2.toInt)
    x <<< sh.toNat
  else
    x.sshiftRight op2.toNat

/-- `AccShr`. -/
def accShr (in0 in1 : BitVec 32) : BitVec 32 :=
  let src0 : BitVec 32 := .ofInt 32 in0.toInt
  let src1 : BitVec 32 := .ofInt 32 in1.toInt
  let shftBy : BitVec 5 := src1.extractLsb' 0 5
  let shrVal : BitVec 32 := apShr src0 shftBy
  .ofInt 32 shrVal.toInt

/-- `Accum2Out`. -/
def accum2Out (accumIn : BitVec 32) : BitVec 8 :=
  let accum : BitVec 32 := .ofInt 32 accumIn.toInt
  let out : BitVec 8 := accum.extractLsb' 0 8
  .ofInt 8 out.toInt

/-- `AccumAddSum`. -/
def accumAddSum (accumIn : BitVec 32) (sumIn : BitVec 21) : BitVec 32 :=
  let accum : BitVec 32 := .ofInt 32 accumIn.toInt
  let tmp : BitVec 21 := .ofInt 21 sumIn.toInt
  let accum : BitVec 32 := .ofInt 32 (accum.toInt + (BitVec.ofInt 32 tmp.toInt).toInt)
  .ofInt 32 accum.toInt

/-- `GemmMac`. -/
def gemmMac (sumIn : BitVec 21) (wgtIn inpIn : BitVec 8) : BitVec 21 :=
  let sum : BitVec 21 := .ofInt 21 sumIn.toInt
  let wgt : BitVec 8 := .ofInt 8 wgtIn.toInt
  let inp : BitVec 8 := .ofInt 8 inpIn.toInt
  let prodDsp : BitVec 17 := .ofInt 17 (wgt.toInt * inp.toInt)
  let sum : BitVec 21 := .ofInt 21 (sum.toInt + (BitVec.ofInt 21 prodDsp.toInt).toInt)
  .ofInt 21 sum.toInt

/-- `Imm2Acc`. -/
def imm2Acc (inp : BitVec 16) : BitVec 32 := .ofInt 32 inp.toInt

/-! ## What each function computes -/

lemma ofInt_add_toInt {w : ℕ} (x y : BitVec w) : BitVec.ofInt w (x.toInt + y.toInt) = x + y := by
  rw [BitVec.ofInt_add, BitVec.ofInt_toInt, BitVec.ofInt_toInt]

lemma acc2Out_eq (x : BitVec 32) : acc2Out x = x.setWidth 8 := by
  simp only [acc2Out, BitVec.ofInt_toInt]
  rfl

lemma accum2Out_eq (x : BitVec 32) : accum2Out x = x.setWidth 8 := acc2Out_eq x

lemma accAdd_eq (x y : BitVec 32) : accAdd x y = x + y := by
  simp only [accAdd, BitVec.ofInt_toInt, ofInt_add_toInt]

lemma accMax_eq (x y : BitVec 32) : accMax x y = if x.toInt > y.toInt then x else y := by
  simp only [accMax, BitVec.ofInt_toInt]

lemma accMin_eq (x y : BitVec 32) : accMin x y = if x.toInt < y.toInt then x else y := by
  simp only [accMin, BitVec.ofInt_toInt]

lemma accumAddSum_eq (x : BitVec 32) (s : BitVec 21) :
    accumAddSum x s = x + BitVec.ofInt 32 s.toInt := by
  simp only [accumAddSum, BitVec.ofInt_toInt, ofInt_add_toInt]

/-- The 17-bit product register never overflows. -/
lemma gemmMac_eq (s : BitVec 21) (wgt inp : BitVec 8) :
    gemmMac s wgt inp = s + BitVec.ofInt 21 (wgt.toInt * inp.toInt) := by
  have hprod : (BitVec.ofInt 17 (wgt.toInt * inp.toInt)).toInt = wgt.toInt * inp.toInt :=
    toInt_ofInt_of_abs_lt (lt_of_le_of_lt (abs_toInt_mul_le wgt inp) (by decide))
  simp only [gemmMac, BitVec.ofInt_toInt, ofInt_add_toInt, hprod]

/-- A number shortened to fewer bits. -/
lemma extractLsb'_eq_ofInt {w v : ℕ} (x : BitVec w) (h : v ≤ w) :
    x.extractLsb' 0 v = BitVec.ofInt v x.toInt := by
  have hext : x.signExtend v = x.setWidth v := BitVec.signExtend_eq_setWidth_of_le x h
  rw [BitVec.signExtend] at hext
  rw [hext]
  ext i hi
  simp

/-- Shifting by a signed count. -/
lemma apShr_eq {w w₂ : ℕ} (x : BitVec w) (s : BitVec (w₂ + 1)) :
    apShr x s = if s.toInt < 0 then x <<< (0 - s.toInt).toNat
      else x.sshiftRight s.toInt.toNat := by
  have hneg : s.getLsbD (w₂ + 1 - 1) = decide (s.toInt < 0) := by
    rw [← BitVec.msb_eq_getLsbD_last, Bool.eq_iff_iff, decide_eq_true_eq, BitVec.toInt_neg_iff,
      BitVec.msb_eq_decide, decide_eq_true_eq, Nat.add_sub_cancel, Nat.pow_succ]
    omega
  rw [apShr, hneg]
  by_cases hs : s.toInt < 0
  · have hlo := BitVec.le_toInt s
    have hpow : (2 : ℤ) ^ (w₂ + 1) = 2 * 2 ^ w₂ := by rw [pow_succ, Int.mul_comm]
    have hmod : (0 - s.toInt) % 2 ^ (w₂ + 1) = 0 - s.toInt := by
      refine Int.emod_eq_of_lt (by omega) ?_
      rw [Nat.add_sub_cancel] at hlo
      omega
    simp only [hs, decide_true, if_true, BitVec.toNat_ofInt]
    push_cast
    rw [hmod]
  · have hnat : (s.toNat : ℤ) = s.toInt := by
      rw [BitVec.toInt_eq_toNat_of_msb]
      rw [BitVec.msb_eq_getLsbD_last, hneg]
      simp [hs]
    simp only [hs, decide_false, Bool.false_eq_true, if_false]
    rw [← hnat, Int.toNat_natCast]

/-- The shift takes its count from the low five bits, which is all of it for a count in range. -/
lemma accShr_eq (x y : BitVec 32) (hlo : -16 ≤ y.toInt) (hhi : y.toInt ≤ 15) :
    accShr x y = if y.toInt < 0 then x <<< (0 - y.toInt).toNat
      else x.sshiftRight y.toInt.toNat := by
  have hcount : (y.extractLsb' 0 5).toInt = y.toInt := by
    rw [extractLsb'_eq_ofInt y (by decide)]
    exact BitVec.toInt_ofInt_eq_self (by decide) (by simpa using hlo) (by omega)
  simp only [accShr, BitVec.ofInt_toInt, apShr_eq, hcount]

/-! ## The matrix product -/

section Gemm

/-- The reference GEMM for one output: `sum = bias; sum += (acc_T) (inputs[i][k] * weights[j][k])`
over (weight, input) pairs, then `(out_T) sum`. -/
def refGemm (bias : BitVec 32) (pairs : List (BitVec 8 × BitVec 8)) : BitVec 8 :=
  (pairs.foldl (fun sum p => sum + BitVec.ofInt 32 (p.2.toInt * p.1.toInt)) bias).setWidth 8

/-- `GemmMac` over one hardware block. -/
def blockSum (block : List (BitVec 8 × BitVec 8)) : BitVec 21 :=
  block.foldl (fun sum p => gemmMac sum p.1 p.2) 0#21

/-- `AccumAddSum` over the blocks. -/
def accumulate (bias : BitVec 32) (blocks : List (List (BitVec 8 × BitVec 8))) : BitVec 32 :=
  blocks.foldl (fun accum b => accumAddSum accum (blockSum b)) bias

/-- The exact sum of products. -/
def dotProduct (pairs : List (BitVec 8 × BitVec 8)) : ℤ :=
  (pairs.map fun p => p.1.toInt * p.2.toInt).sum

/-- **No block sum wraps** for blocks of at most 63 pairs. -/
theorem toInt_blockSum {block : List (BitVec 8 × BitVec 8)} (h : block.length ≤ 63) :
    (blockSum block).toInt = dotProduct block := by
  have hfold : blockSum block = block.foldl
      (fun s p => s + BitVec.ofInt 21 (p.1.toInt * p.2.toInt)) 0#21 := by
    simp only [blockSum, gemmMac_eq]
  rw [hfold]
  refine toInt_foldl_add _ (fun p _ => abs_toInt_mul_le p.1 p.2) ?_
  have : (block.length : ℤ) ≤ 63 := by exact_mod_cast h
  omega

/-- Sixty-four extreme products already wrap. -/
example : (blockSum (List.replicate 64 (0x80#8, 0x80#8))).toInt = -2 ^ 20 := by decide +kernel

/-- The accumulator holds the bias plus the sum of all products, modulo `2 ^ 32`. -/
theorem accumulate_eq (bias : BitVec 32) {blocks : List (List (BitVec 8 × BitVec 8))}
    (h : ∀ b ∈ blocks, b.length ≤ 63) :
    accumulate bias blocks = bias + BitVec.ofInt 32 (dotProduct blocks.flatten) := by
  induction blocks generalizing bias with
  | nil => simp [accumulate, dotProduct]
  | cons b blocks ih =>
      have hb := toInt_blockSum (h b List.mem_cons_self)
      have ih' := ih (accumAddSum bias (blockSum b)) fun b' hb' => h b' (List.mem_cons_of_mem b hb')
      have hcons : accumulate bias (b :: blocks)
          = accumulate (accumAddSum bias (blockSum b)) blocks := rfl
      rw [hcons, ih', accumAddSum_eq, hb, BitVec.add_assoc, ← BitVec.ofInt_add]
      simp [dotProduct]

/-- The reference sum. -/
lemma refGemm_eq (bias : BitVec 32) (pairs : List (BitVec 8 × BitVec 8)) :
    refGemm bias pairs = (bias + BitVec.ofInt 32 (dotProduct pairs)).setWidth 8 := by
  simp only [refGemm, foldl_add_ofInt, dotProduct, Int.mul_comm]

/-- **The simulated GEMM agrees with the reference GEMM**: the stored byte is the reference byte,
no partial block sum wraps, and neither the order of the products nor their partition into blocks
matters. -/
theorem gemm_eq_refGemm (bias : BitVec 32) (blocks : List (List (BitVec 8 × BitVec 8)))
    (h : ∀ b ∈ blocks, b.length ≤ 63) :
    accum2Out (accumulate bias blocks) = refGemm bias blocks.flatten ∧
    acc2Out (accumulate bias blocks) = refGemm bias blocks.flatten ∧
    (∀ b ∈ blocks, ∀ n, (blockSum (b.take n)).toInt = dotProduct (b.take n)) ∧
    ∀ blocks' : List (List (BitVec 8 × BitVec 8)), (∀ b ∈ blocks', b.length ≤ 63) →
      blocks'.flatten.Perm blocks.flatten → accumulate bias blocks' = accumulate bias blocks := by
  refine ⟨?_, ?_, fun b hb n => ?_, fun blocks' h' hperm => ?_⟩
  · rw [accum2Out_eq, accumulate_eq bias h, refGemm_eq]
  · rw [acc2Out_eq, accumulate_eq bias h, refGemm_eq]
  · refine toInt_blockSum (le_trans ?_ (h b hb))
    rw [List.length_take]
    exact Nat.min_le_right _ _
  · have hdot : dotProduct blocks'.flatten = dotProduct blocks.flatten := (hperm.map _).sum_eq
    rw [accumulate_eq bias h', accumulate_eq bias h, hdot]

/-- Two blocks of extreme products on a bias near the end of its range. -/
theorem gemm_eq_refGemm_extreme :
    accum2Out (accumulate 0x7fffffff#32 [List.replicate 63 (0x80#8, 0x80#8), [(0x7f#8, 0x80#8)]])
      = refGemm 0x7fffffff#32 (List.replicate 63 (0x80#8, 0x80#8) ++ [(0x7f#8, 0x80#8)]) :=
  (gemm_eq_refGemm 0x7fffffff#32 [List.replicate 63 (0x80#8, 0x80#8), [(0x7f#8, 0x80#8)]]
    (by decide)).1

end Gemm

/-! ## The vector ALU -/

/-- `out_val` of the reference ALU. -/
def refOutVal (opcode : AluOpcode) (useImm : Bool) (x srcVal immVal : BitVec 32) : BitVec 32 :=
  match opcode with
  | .min =>
      if !useImm then (if x.toInt < srcVal.toInt then x else srcVal)
      else (if x.toInt < immVal.toInt then x else immVal)
  | .max =>
      if !useImm then (if x.toInt > srcVal.toInt then x else srcVal)
      else (if x.toInt > immVal.toInt then x else immVal)
  | .add => if !useImm then x + srcVal else x + immVal
  | .shr =>
      if !useImm then
        (if srcVal.toInt ≥ 0 then x.sshiftRight srcVal.toInt.toNat
          else x <<< (0 - srcVal.toInt).toNat)
      else
        (if immVal.toInt ≥ 0 then x.sshiftRight immVal.toInt.toNat
          else x <<< (0 - immVal.toInt).toNat)
  | .other _ => 0

/-- The function the simulation model calls for an opcode. -/
def aluFunction : AluOpcode → Option (BitVec 32 → BitVec 32 → BitVec 32)
  | .min => some accMin
  | .max => some accMax
  | .add => some accAdd
  | .shr => some accShr
  | .other _ => none

namespace AluTest

variable (cfg : VtaConfig) (p : AluTest) (inputs : ℕ → ℕ → BitVec 32)

/-- `imm_val` of row `i`. -/
def immVal (i : ℕ) : BitVec 32 := .ofInt 32 (p.immediate (i / cfg.vtaBatch))

/-- `outputs_ref[i][j]`. -/
def outputsRef (i j : ℕ) : BitVec 8 :=
  (refOutVal p.opcode p.useImm (inputs i j) (inputs i (j + p.vectorSize))
    (p.immVal cfg i)).setWidth 8

/-- The second operand as the simulation model gets it: a second input vector, or the immediate
field of the instruction through `Imm2Acc`. -/
def operand (i j : ℕ) : BitVec 32 :=
  if p.useImm then imm2Acc (.ofInt 16 (p.immediate (i / cfg.vtaBatch)))
  else inputs i (j + p.vectorSize)

/-- The bytes the simulation model stores for row `i`. -/
def simOutputs (i : ℕ) : Option (List (BitVec 8)) :=
  (aluFunction p.opcode).map fun f =>
    (List.range p.vectorSize).map fun j => acc2Out (f (inputs i j) (p.operand cfg inputs i j))

/-- `Imm2Acc` gives the immediate back when it fits its field. -/
lemma imm2Acc_ofInt {imm : ℤ} (hlo : -2 ^ 15 ≤ imm) (hhi : imm < 2 ^ 15) :
    imm2Acc (.ofInt 16 imm) = .ofInt 32 imm := by
  rw [imm2Acc, BitVec.toInt_ofInt_eq_self (by decide) (by omega) (by omega)]

/-- An ALU function agrees with the reference on every operand the opcode takes. -/
lemma aluFunction_eq {opcode : AluOpcode} {f : BitVec 32 → BitVec 32 → BitVec 32}
    (hf : aluFunction opcode = some f) {x y : BitVec 32}
    (hshr : opcode = .shr → -16 ≤ y.toInt ∧ y.toInt ≤ 15) (useImm : Bool) (z : BitVec 32) :
    f x y = refOutVal opcode useImm x (if useImm then z else y) (if useImm then y else z) := by
  cases opcode with
  | min =>
      cases hf
      cases useImm <;> simp [accMin_eq, refOutVal]
  | max =>
      cases hf
      cases useImm <;> simp [accMax_eq, refOutVal]
  | add =>
      cases hf
      cases useImm <;> simp [accAdd_eq, refOutVal]
  | shr =>
      cases hf
      obtain ⟨hlo, hhi⟩ := hshr rfl
      rw [accShr_eq x y hlo hhi]
      cases useImm <;> simp only [refOutVal] <;> grind
  | other c => cases hf

/-- **The simulated ALU agrees with the reference ALU** on every row: every opcode, register or
immediate operand, and every shift count that fits the 5-bit count register. -/
theorem simOutputs_eq (i : ℕ) (hop : ∀ c, p.opcode ≠ .other c)
    (himm : p.useImm = true → -2 ^ 15 ≤ p.immediate (i / cfg.vtaBatch) ∧
      p.immediate (i / cfg.vtaBatch) < 2 ^ 15)
    (hshr : p.opcode = .shr → ∀ j < p.vectorSize,
      -16 ≤ (p.operand cfg inputs i j).toInt ∧ (p.operand cfg inputs i j).toInt ≤ 15) :
    p.simOutputs cfg inputs i
      = some ((List.range p.vectorSize).map (p.outputsRef cfg inputs i)) := by
  obtain ⟨f, hf⟩ : ∃ f, aluFunction p.opcode = some f := by
    cases hc : p.opcode with
    | min | max | add | shr => exact ⟨_, rfl⟩
    | other c => exact absurd hc (hop c)
  rw [simOutputs, hf, Option.map_some]
  congr 1
  refine List.map_congr_left fun j hj => ?_
  have hagree := aluFunction_eq hf (x := inputs i j) (y := p.operand cfg inputs i j)
    (fun h => hshr h j (List.mem_range.mp hj)) p.useImm
  rw [acc2Out_eq, outputsRef]
  cases huse : p.useImm with
  | false =>
      have h := hagree (p.immVal cfg i)
      simp only [huse, operand, Bool.false_eq_true, if_false] at h
      rw [operand, huse, if_neg Bool.false_ne_true, h]
  | true =>
      obtain ⟨hlo, hhi⟩ := himm huse
      have h := hagree (inputs i (j + p.vectorSize))
      simp only [huse, operand, if_true, imm2Acc_ofInt hlo hhi] at h
      rw [operand, huse, if_pos rfl, imm2Acc_ofInt hlo hhi, h, immVal]

/-- A left shift by two through an immediate. -/
theorem simOutputs_eq_shl :
    (AluTest.mk .shr true 1 2 false fun _ => -2).simOutputs config16
        (fun _ j => if j = 0 then 0xffffffff#32 else 0x7fffffff#32) 0
      = some ((List.range 2).map ((AluTest.mk .shr true 1 2 false fun _ => -2).outputsRef config16
        (fun _ j => if j = 0 then 0xffffffff#32 else 0x7fffffff#32) 0)) :=
  simOutputs_eq config16 (AluTest.mk .shr true 1 2 false fun _ => -2) _ 0 (fun _ h => nomatch h)
    (fun _ => by decide) (fun _ j _ => by
      have : (AluTest.mk .shr true 1 2 false fun _ => -2).operand config16
        (fun _ j => if j = 0 then 0xffffffff#32 else 0x7fffffff#32) 0 j = -2 := by rfl
      rw [this]
      decide)

end AluTest

end ThreeLaSim
