import ThreeLaSim.Core.Text
import ThreeLaSim.Vta.Insn

/-!
# What the test library prints

The lines of the test library that the log tools look for: the `[ILA-INFO]` lines of
`printInstruction`, `printMicroOp` and the three tests, the `[INSTR-START]` line that opens a run,
and the line that ends it.  A run also prints other lines; all that matters about these is that
they carry none of the three markers.
-/

namespace ThreeLaSim

open CText

/-- `%d` of a nonnegative number. -/
def dec (n : ℕ) : Str := Nat.toDigits 10 n

/-! ## `[ILA-INFO]` lines -/

/-- The eight formats. -/
inductive RecordKind
  | instr
  | uop
  | aluBias
  | aluOut
  | gemmInput
  | gemmWeight
  | gemmBias
  | gemmOutput
  deriving DecidableEq, Repr

namespace RecordKind

/-- The format up to its `%d`. -/
def lead : RecordKind → Str
  | instr => "[ILA-INFO]: instr No.".toList
  | uop => "[ILA-INFO]: uop No.".toList
  | aluBias => "[ILA-INFO]: alu_test bias_buf[".toList
  | aluOut => "[ILA-INFO]: alu_test result out_buf[".toList
  | gemmInput => "[ILA-INFO] GEMM input_buffer[".toList
  | gemmWeight => "[ILA-INFO] GEMM weight_buffer[".toList
  | gemmBias => "[ILA-INFO] GEMM bias_buf[".toList
  | gemmOutput => "[ILA-INFO] GEMM output_buf[".toList

/-- The format between the `%d` and the value. -/
def mid : RecordKind → Str
  | instr => " \t ".toList
  | uop => " \t info: ".toList
  | _ => "]: ".toList

/-- The digits the value is printed with: `%016llx` twice, `%016llx`, `%08llx` or `%02llx`. -/
def digits : RecordKind → ℕ
  | instr => 32
  | uop => 16
  | aluBias | aluOut | gemmBias | gemmOutput => 8
  | gemmInput | gemmWeight => 2

/-- The width of the printed variable. -/
def bits : RecordKind → ℕ
  | instr => 128
  | uop => 64
  | aluBias | gemmBias => 32
  | aluOut | gemmOutput | gemmInput | gemmWeight => 8

/-- Output records are what the tests compare; all others are input to the simulation. -/
def isOutput : RecordKind → Bool
  | aluOut | gemmOutput => true
  | _ => false

lemma digits_pos (k : RecordKind) : 0 < k.digits := by cases k <;> decide

lemma two_pow_bits_le (k : RecordKind) : 2 ^ k.bits ≤ 16 ^ k.digits := by cases k <;> decide

end RecordKind

/-- One printed record: the loop index and the value, within their C types. -/
structure IlaRecord where
  kind : RecordKind
  index : ℕ
  value : ℕ
  index_lt : index < 2 ^ 31
  value_lt : value < 2 ^ kind.bits

namespace IlaRecord

variable (r : IlaRecord)

/-- The value as printed; an instruction in two halves. -/
def valueText : Str :=
  match r.kind with
  | .instr => hexPad 16 (r.value / 2 ^ 64) ++ hexPad 16 (r.value % 2 ^ 64)
  | k => hexPad k.digits r.value

/-- The printed line. -/
def line : Str := r.kind.lead ++ (dec r.index ++ (r.kind.mid ++ r.valueText))

/-- The line behind the marker and one more character. -/
def payload : Str := r.kind.lead.drop 11 ++ (dec r.index ++ (r.kind.mid ++ r.valueText))

lemma isDigit_of_mem_valueText : ∀ c ∈ r.valueText, isDigit 16 c = true := by
  intro c hc
  rw [valueText] at hc
  split at hc
  · rcases List.mem_append.mp hc with hc | hc <;> exact isDigit_of_mem_hexPad _ _ c hc
  · exact isDigit_of_mem_hexPad _ _ c hc

lemma isDigit_of_mem_dec (n : ℕ) : ∀ c ∈ dec n, isDigit 16 c = true := fun c hc =>
  isDigit_mono (by decide) (isDigit_of_mem_toDigits (by decide) (by decide) n c hc)

/-- A character that is no digit comes from the format. -/
lemma not_mem_numbers {c : Char} (hdigit : isDigit 16 c = false) (hmid : c ∉ r.kind.mid) :
    c ∉ dec r.index ++ (r.kind.mid ++ r.valueText) := by
  simp only [List.mem_append, not_or]
  exact ⟨not_mem_digits (isDigit_of_mem_dec r.index) hdigit, hmid,
    not_mem_digits r.isDigit_of_mem_valueText hdigit⟩

lemma not_mem_line {c : Char} (hdigit : isDigit 16 c = false) (hlead : c ∉ r.kind.lead)
    (hmid : c ∉ r.kind.mid) : c ∉ r.line := by
  rw [line, List.mem_append, not_or]
  exact ⟨hlead, r.not_mem_numbers hdigit hmid⟩

lemma not_mem_payload {c : Char} (hdigit : isDigit 16 c = false) (hlead : c ∉ r.kind.lead.drop 11)
    (hmid : c ∉ r.kind.mid) : c ∉ r.payload := by
  rw [payload, List.mem_append, not_or]
  exact ⟨hlead, r.not_mem_numbers hdigit hmid⟩

/-- A line is the marker, one more character and the payload. -/
lemma line_eq : ∃ c, r.line = "[ILA-INFO".toList ++ ']' :: c :: r.payload := by
  obtain ⟨c, hc⟩ : ∃ c, r.kind.lead = "[ILA-INFO".toList ++ ']' :: c :: r.kind.lead.drop 11 := by
    cases r.kind <;> exact ⟨_, rfl⟩
  refine ⟨c, ?_⟩
  rw [line, payload, hc]
  simp

/-- The low half of an instruction fits its field. -/
lemma length_lowHalf (n : ℕ) : (hexPad 16 (n % 2 ^ 64)).length = 16 := by
  have hlt : n % 2 ^ 64 < 16 ^ 16 := Nat.mod_lt n (by decide)
  exact length_hexPad (by decide) hlt

/-- The value is printed at full width. -/
lemma length_valueText : r.valueText.length = r.kind.digits := by
  have hlt := r.value_lt
  have hle := r.kind.two_pow_bits_le
  rw [valueText]
  split
  · next hk =>
    rw [hk] at hlt ⊢
    have hhigh : r.value / 2 ^ 64 < 16 ^ 16 := Nat.div_lt_of_lt_mul hlt
    rw [List.length_append, length_hexPad (by decide) hhigh, length_lowHalf]
    rfl
  · exact length_hexPad r.kind.digits_pos (by omega)

/-- The printed value reads back. -/
lemma ofDigits_valueText : ofDigits 16 r.valueText = r.value := by
  rw [valueText]
  split
  · rw [ofDigits_append, ofDigits_hexPad, ofDigits_hexPad, length_lowHalf]
    exact Nat.div_add_mod' r.value (2 ^ 64)
  · exact ofDigits_hexPad _ _

end IlaRecord

/-! ## Runs -/

/-- `getOpcodeString`. -/
def getOpcodeString (opcode : AluOpcode) (useImm : Bool) : String :=
  match opcode with
  | .min => if useImm then "min imm" else "min"
  | .max => if useImm then "max imm" else "max"
  | .add => if useImm then "add imm" else "add"
  | .shr => "shr"
  | .other _ => "unknown op"

/-- The function run and its arguments. -/
inductive TestParams
  | alu (opcode : AluOpcode) (useImm : Bool) (batch vectorSize : ℕ) (uopCompression : Bool)
  | blocked (batch channels block : ℕ) (uopCompression : Bool) (virtualThreads : ℕ)
  | gemm (batch inChannels outChannels : ℕ) (uopCompression : Bool)
  deriving DecidableEq, Repr

/-- What `alu_test` prints behind `[INSTR-START] - `. -/
def aluName (opcode : AluOpcode) (useImm : Bool) (batch vectorSize : ℕ) (uopCompression : Bool) :
    Str :=
  "ALU test of ".toList ++ ((getOpcodeString opcode useImm).toList ++ (": batch=".toList ++
    (dec batch ++ (", vector_size=".toList ++ (dec vectorSize ++
      (", uop_compression=".toList ++ dec uopCompression.toNat))))))

/-- What `blocked_gemm_test` prints there. -/
def blockedName (batch channels block : ℕ) (uopCompression : Bool) (virtualThreads : ℕ) : Str :=
  "Blocked GEMM test: batch=".toList ++ (dec batch ++ (", channels=".toList ++ (dec channels ++
    (", block=".toList ++ (dec block ++ (", uop_comp=".toList ++ (dec uopCompression.toNat ++
      (", vt=".toList ++ dec virtualThreads))))))))

/-- What `gemm_test` prints there. -/
def gemmName (batch inChannels outChannels : ℕ) (uopCompression : Bool) : Str :=
  "Blocked GEMM test: batch=".toList ++ (dec batch ++ (", in_channels=".toList ++
    (dec inChannels ++ (", out_channels=".toList ++ (dec outChannels ++
      (", uop_comp=".toList ++ dec uopCompression.toNat))))))

/-- The description of a run. -/
def TestParams.name : TestParams → Str
  | .alu opcode useImm batch vectorSize uopCompression =>
      aluName opcode useImm batch vectorSize uopCompression
  | .blocked batch channels block uopCompression virtualThreads =>
      blockedName batch channels block uopCompression virtualThreads
  | .gemm batch inChannels outChannels uopCompression =>
      gemmName batch inChannels outChannels uopCompression

/-- The function name in the closing line; `gemm_test` prints that of `blocked_gemm_test`. -/
def TestParams.closing : TestParams → Str
  | .alu .. => "INFO - ALU test ".toList
  | .blocked .. | .gemm .. => "INFO - Blocked GEMM test ".toList

lemma TestParams.closing_eq (p : TestParams) :
    p.closing = "INFO - ALU test ".toList ∨ p.closing = "INFO - Blocked GEMM test ".toList := by
  cases p with
  | alu => exact .inl rfl
  | blocked | gemm => exact .inr rfl

/-- The marker of a start line. -/
def instrStart : Str := "[INSTR-START]".toList

/-- The marker of a record. -/
def ilaInfo : Str := "[ILA-INFO]".toList

/-- The marker of a successful end. -/
def testSuccessful : Str := "test successful!".toList

/-- Any other line a run prints: none of the three markers occurs in it. -/
structure OtherLine where
  text : Str
  no_start : contains instrStart text = false
  no_info : contains ilaInfo text = false
  no_end : contains testSuccessful text = false

/-- One run of a test: what it prints before its start line, between start and end, and how many
errors its check finds. -/
structure TestRun where
  params : TestParams
  before : List OtherLine
  body : List (OtherLine ⊕ IlaRecord)
  errors : ℕ

namespace TestRun

variable (r : TestRun)

/-- The line that opens the run. -/
def startLine : Str := "INFO [INSTR-START] - ".toList ++ r.params.name

/-- The line that ends the run. -/
def endLine : Str :=
  if r.errors = 0 then r.params.closing ++ "successful!".toList
  else r.params.closing ++ ("failed, got ".toList ++ (dec r.errors ++ " errors!".toList))

/-- The lines between start and end. -/
def bodyLine : OtherLine ⊕ IlaRecord → Str
  | .inl o => o.text
  | .inr i => i.line

/-- Everything the run prints. -/
def log : List Str :=
  r.before.map OtherLine.text ++ (r.startLine :: r.body.map bodyLine) ++ [r.endLine]

/-- The records of a body, in order. -/
def recordsOf : List (OtherLine ⊕ IlaRecord) → List IlaRecord
  | [] => []
  | .inl _ :: body => recordsOf body
  | .inr i :: body => i :: recordsOf body

/-- What the run prints about the accelerator's input and output. -/
def records : List IlaRecord := recordsOf r.body

/-- The payloads of the run's `[ILA-INFO]` lines. -/
def payloads : List Str := r.records.map IlaRecord.payload

end TestRun

/-! ### Names -/

/-- Two ALU runs of equal sizes whose opcodes print alike: shifts, with and without immediate, or
opcodes the printer does not know. -/
def TestParams.Clash : TestParams → TestParams → Prop
  | .alu op _ batch vectorSize uopCompression, .alu op' _ batch' vectorSize' uopCompression' =>
      batch = batch' ∧ vectorSize = vectorSize' ∧ uopCompression = uopCompression' ∧
        (op = .shr ∧ op' = .shr ∨ (∃ c, op = .other c) ∧ ∃ c, op' = .other c)
  | _, _ => False

lemma getOpcodeString_eq_iff (op op' : AluOpcode) (u u' : Bool) :
    getOpcodeString op u = getOpcodeString op' u' ↔ op = op' ∧ u = u' ∨
      (op = .shr ∧ op' = .shr ∨ (∃ c, op = .other c) ∧ ∃ c, op' = .other c) := by
  cases op <;> cases op' <;> cases u <;> cases u' <;> simp [getOpcodeString]

lemma not_mem_dec {c : Char} (h : isDigit 10 c = false) (n : ℕ) : c ∉ dec n :=
  not_mem_digits (isDigit_of_mem_toDigits (by decide) (by decide) n) h

lemma dec_injective : Function.Injective dec := toDigits_injective (by decide) (by decide)

lemma toNat_injective : Function.Injective Bool.toNat := by
  intro a b
  cases a <;> cases b <;> decide

lemma colon_not_mem_getOpcodeString (op : AluOpcode) (u : Bool) :
    ':' ∉ (getOpcodeString op u).toList := by
  cases op with
  | other code =>
      have h : ':' ∉ "unknown op".toList := by decide
      exact h
  | min | max | add | shr => cases u <;> decide

/-- The characters that tell the markers from a name. -/
lemma not_mem_name {c : Char} (hc : c = '!' ∨ c = '[') (p : TestParams) : c ∉ p.name := by
  have hdec : ∀ n, c ∉ dec n := by rcases hc with rfl | rfl <;> exact not_mem_dec (by decide)
  have hlit : ∀ s : Str, '!' ∉ s → '[' ∉ s → c ∉ s := by
    rcases hc with rfl | rfl
    · exact fun s h _ => h
    · exact fun s _ h => h
  cases p with
  | alu op u b v uc =>
      have hop : c ∉ (getOpcodeString op u).toList := by
        cases op with
        | other code => exact hlit "unknown op".toList (by decide) (by decide)
        | min | max | add | shr => cases u <;> exact hlit _ (by decide) (by decide)
      unfold TestParams.name aluName
      simp only [List.mem_append, not_or]
      exact ⟨hlit _ (by decide) (by decide), hop, hlit _ (by decide) (by decide), hdec b,
        hlit _ (by decide) (by decide), hdec v, hlit _ (by decide) (by decide), hdec _⟩
  | blocked b ch bl uc vt =>
      unfold TestParams.name blockedName
      simp only [List.mem_append, not_or]
      exact ⟨hlit _ (by decide) (by decide), hdec b, hlit _ (by decide) (by decide), hdec ch,
        hlit _ (by decide) (by decide), hdec bl, hlit _ (by decide) (by decide), hdec _,
        hlit _ (by decide) (by decide), hdec vt⟩
  | gemm b i o uc =>
      unfold TestParams.name gemmName
      simp only [List.mem_append, not_or]
      exact ⟨hlit _ (by decide) (by decide), hdec b, hlit _ (by decide) (by decide), hdec i,
        hlit _ (by decide) (by decide), hdec o, hlit _ (by decide) (by decide), hdec _⟩

/-- A field of a name is recovered from it. -/
lemma field_inj {c : Char} {a a' b b' lit : Str} (hl : lit.head? = some c) (ha : c ∉ a)
    (ha' : c ∉ a') (h : a ++ (lit ++ b) = a' ++ (lit ++ b')) : a = a' ∧ b = b' := by
  obtain ⟨u, rfl⟩ : ∃ u, lit = c :: u := List.head?_eq_some_iff.mp hl
  obtain ⟨h₁, h₂⟩ := append_lit_inj rfl rfl ha ha' h
  exact ⟨h₁, List.append_cancel_left h₂⟩

/-- A number in front of a separator is recovered. -/
lemma dec_field_inj {n n' : ℕ} {b b' lit : Str} (hl : lit.head? = some ',')
    (h : dec n ++ (lit ++ b) = dec n' ++ (lit ++ b')) : n = n' ∧ b = b' := by
  have hcomma : ∀ m, ',' ∉ dec m := not_mem_dec (by decide)
  obtain ⟨h₁, h₂⟩ := field_inj hl (hcomma n) (hcomma n') h
  exact ⟨dec_injective h₁, h₂⟩

lemma aluName_inj {op op' : AluOpcode} {u u' : Bool} {b b' v v' : ℕ} {c c' : Bool}
    (h : aluName op u b v c = aluName op' u' b' v' c') :
    getOpcodeString op u = getOpcodeString op' u' ∧ b = b' ∧ v = v' ∧ c = c' := by
  unfold aluName at h
  obtain ⟨hop, h₁⟩ := field_inj (by decide) (colon_not_mem_getOpcodeString op u)
    (colon_not_mem_getOpcodeString op' u') (List.append_cancel_left h)
  obtain ⟨hb, h₂⟩ := dec_field_inj (by decide) h₁
  obtain ⟨hv, h₃⟩ := dec_field_inj (by decide) h₂
  exact ⟨String.toList_injective hop, hb, hv, toNat_injective (dec_injective h₃)⟩

lemma blockedName_inj {b b' ch ch' bl bl' vt vt' : ℕ} {c c' : Bool}
    (h : blockedName b ch bl c vt = blockedName b' ch' bl' c' vt') :
    b = b' ∧ ch = ch' ∧ bl = bl' ∧ c = c' ∧ vt = vt' := by
  unfold blockedName at h
  obtain ⟨hb, h₁⟩ := dec_field_inj (by decide) (List.append_cancel_left h)
  obtain ⟨hch, h₂⟩ := dec_field_inj (by decide) h₁
  obtain ⟨hbl, h₃⟩ := dec_field_inj (by decide) h₂
  obtain ⟨hc, h₄⟩ := dec_field_inj (by decide) h₃
  exact ⟨hb, hch, hbl, toNat_injective hc, dec_injective h₄⟩

lemma gemmName_inj {b b' i i' o o' : ℕ} {c c' : Bool}
    (h : gemmName b i o c = gemmName b' i' o' c') : b = b' ∧ i = i' ∧ o = o' ∧ c = c' := by
  unfold gemmName at h
  obtain ⟨hb, h₁⟩ := dec_field_inj (by decide) (List.append_cancel_left h)
  obtain ⟨hi, h₂⟩ := dec_field_inj (by decide) h₁
  obtain ⟨ho, h₃⟩ := dec_field_inj (by decide) h₂
  exact ⟨hb, hi, ho, toNat_injective (dec_injective h₃)⟩

/-- The two GEMM tests differ in the name of the second field. -/
lemma blockedName_ne_gemmName {b ch bl vt b' i o : ℕ} {c c' : Bool} :
    blockedName b ch bl c vt ≠ gemmName b' i o c' := by
  intro h
  have hcomma : ∀ m, ',' ∉ dec m := not_mem_dec (by decide)
  have hlit : ", channels=".toList = ',' :: " channels=".toList := by decide
  have hlit' : ", in_channels=".toList = ',' :: " in_channels=".toList := by decide
  unfold blockedName gemmName at h
  obtain ⟨-, h₁⟩ := append_lit_inj hlit hlit' (hcomma b) (hcomma b') (List.append_cancel_left h)
  have h₂ : some 'c' = some 'i' := congrArg (fun l : Str => l[1]?) h₁
  exact absurd h₂ (by decide)

lemma aluName_ne {op : AluOpcode} {u : Bool} {b v : ℕ} {c : Bool} {s : Str}
    (hs : s.head? = some 'B') : aluName op u b v c ≠ s := by
  intro h
  have hhead : (aluName op u b v c).head? = some 'A' := rfl
  rw [h, hs] at hhead
  exact absurd hhead (by decide)

/-- **When two runs print the same name.** -/
theorem name_eq_iff (p q : TestParams) : p.name = q.name ↔ p = q ∨ p.Clash q := by
  constructor
  · intro h
    cases p with
    | alu op u b v c =>
        cases q with
        | alu op' u' b' v' c' =>
            obtain ⟨hop, rfl, rfl, rfl⟩ := aluName_inj h
            rcases (getOpcodeString_eq_iff op op' u u').mp hop with ⟨rfl, rfl⟩ | hclash
            · exact .inl rfl
            · exact .inr ⟨rfl, rfl, rfl, hclash⟩
        | blocked | gemm => exact absurd h (aluName_ne rfl)
    | blocked b ch bl c vt =>
        cases q with
        | alu => exact absurd h.symm (aluName_ne rfl)
        | blocked =>
            obtain ⟨rfl, rfl, rfl, rfl, rfl⟩ := blockedName_inj h
            exact .inl rfl
        | gemm => exact absurd h blockedName_ne_gemmName
    | gemm b i o c =>
        cases q with
        | alu => exact absurd h.symm (aluName_ne rfl)
        | blocked => exact absurd h.symm blockedName_ne_gemmName
        | gemm =>
            obtain ⟨rfl, rfl, rfl, rfl⟩ := gemmName_inj h
            exact .inl rfl
  · rintro (rfl | h)
    · rfl
    · cases p with
      | alu op u b v c =>
          cases q with
          | alu op' u' b' v' c' =>
              obtain ⟨rfl, rfl, rfl, hop⟩ := h
              have hstr := (getOpcodeString_eq_iff op op' u u').mpr (.inr hop)
              show aluName op u b v c = aluName op' u' b v c
              unfold aluName
              rw [hstr]
          | blocked | gemm => exact h.elim
      | blocked | gemm => exact h.elim

end ThreeLaSim
