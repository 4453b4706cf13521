import ThreeLaSim.Core.History
import ThreeLaSim.Flexnlp.FlexnlpResult
import ThreeLaSim.Flexnlp.SourceInput

/-!
# The exponent biases of `extract_float_data`

The program reads a flexnlp command file and prints the data written to the large buffer and to the
four processing elements as floats.  The exponent bias of a conversion is taken from the last
configuration write it has seen, whichever unit that write was meant for, and the bias of the bias
vectors from the byte of the weights.

* `extractFloatData` — the program; the conversion to a float is a parameter.
* `extractFloatData_streamText` — the lines it prints for a stream of commands.
* **`convertsAsProgrammed_iff`** — every datum of a processing element is converted with the bias
  this element was programmed with exactly when the byte used is the same.
-/

namespace ThreeLaSim

open CText History

/-! ## The program -/

/-- The three bias variables of the program, with the byte each was set from.  How wide their type is,
and what it makes of the byte, belongs to the conversion, which is a parameter. -/
structure Biases where
  weight : BitVec 8
  bias : BitVec 8
  input : BitVec 8
  deriving DecidableEq, Repr

/-- Which of them a conversion takes. -/
inductive BiasVar
  | weight
  | bias
  | input
  deriving DecidableEq, Repr

/-- `bias_weight`, `bias_bias` or `bias_input`. -/
def Biases.get (b : Biases) : BiasVar → BitVec 8
  | .weight => b.weight
  | .bias => b.bias
  | .input => b.input

/-- A range of addresses whose data is printed, with the heading of its lines. -/
structure Region where
  heading : Str
  lo : ℕ
  hi : ℕ
  var : BiasVar

/-- The address lies in the range. -/
def Region.Contains (g : Region) (addr : ℕ) : Prop := g.lo ≤ addr ∧ addr ≤ g.hi

instance (g : Region) : DecidablePred g.Contains := fun _ => inferInstanceAs (Decidable (_ ∧ _))

/-- The ranges, in the order in which they are tried. -/
def regions : List Region := [
  ⟨"GB: ".toList, 0x33500000, 0x335fffff, .input⟩,
  ⟨"weight in PE0:".toList, 0x34500000, 0x345fffff, .weight⟩,
  ⟨"bias in PE0\n".toList, 0x34600000, 0x346fffff, .bias⟩,
  ⟨"weight in PE1\n".toList, 0x35500000, 0x355fffff, .weight⟩,
  ⟨"bias in PE1\n".toList, 0x35600000, 0x356fffff, .bias⟩,
  ⟨"weight in PE2\n".toList, 0x36500000, 0x365fffff, .weight⟩,
  ⟨"bias in PE2\n".toList, 0x36600000, 0x366fffff, .bias⟩,
  ⟨"weight in PE3\n".toList, 0x37500000, 0x375fffff, .weight⟩,
  ⟨"bias in PE3\n".toList, 0x37600000, 0x376fffff, .bias⟩]

/-- The first range that contains an address. -/
def regionOf (addr : ℕ) : Option Region := regions.find? (·.Contains addr)

/-- A line of the output: heading, address and sixteen floats. -/
@[ext]
structure FloatLine (F : Type) where
  heading : Str
  addr : ℕ
  floats : List F

/-- The state of the loop: the bias variables and the lines printed. -/
structure FloatState (F : Type) where
  biases : Biases
  fs : List (FloatLine F)

/-- A configuration write.  The byte for the bias vectors is cut out as well, but `bias_b_ac` is set
to the byte of the weights. -/
def configure (inputCmd : Str) : Option Biases := do
  let biasWStr ← substr inputCmd (sizeT (inputCmd.length - 4)) 2
  let _biasBStr ← substr inputCmd (sizeT (inputCmd.length - 6)) 2
  let biasIStr ← substr inputCmd (sizeT (inputCmd.length - 8)) 2
  let biasW ← stoi 16 biasWStr
  let biasB ← stoi 16 biasWStr
  let biasI ← stoi 16 biasIStr
  return ⟨.ofInt 8 biasW, .ofInt 8 biasB, .ofInt 8 biasI⟩

section Program

variable {F : Type} (toFloat : BitVec 8 → BitVec 8 → F)

/-- The sixteen bytes of the data, from the left, each converted with the bias. -/
def convertBytes (bias : BitVec 8) (inputCmdFormat : Str) : Option (List F) :=
  (List.range 16).mapM fun i => do
    let dataByte ← substr inputCmdFormat (i * 2) 2
    let dataByteInt ← stoi 16 dataByte
    return toFloat (.ofInt 8 dataByteInt) bias

/-- One turn of the loop, on the four fields of a row. -/
def floatStep (st : FloatState F) : List Str → Option (FloatState F)
  | [_, mode, addr, inputCmd] =>
      if mode = "R".toList then some st
      else if addr = "0xdeaddead".toList then some st
      else do
        let inputCmd := stripCr inputCmd
        let inputCmdFormat ← dataFormat inputCmd
        let localAddr ← substrFrom addr 4
        if localAddr = "400020".toList then
          let biases ← configure inputCmd
          return { st with biases := biases }
        else
          let addrInt ← stoi 16 addr
          let addrAcInt := (addrInt % 2 ^ 32).toNat
          match regionOf addrAcInt with
          | none => return st
          | some g =>
              let floats ← convertBytes toFloat (st.biases.get g.var) inputCmdFormat
              return { st with fs := st.fs ++ [⟨g.heading, addrAcInt, floats⟩] }
  | _ => none

/-- `extract_float_data`, on the text of a command file.  Two of the bias variables are not
initialised; `weight` and `bias` are what they hold. -/
def extractFloatData (weight bias : BitVec 8) (fin : Str) : Option (List (FloatLine F)) := do
  let rows ← readRows traceDelims fin
  let st ← rows.foldlM (floatStep toFloat) ⟨⟨weight, bias, 1⟩, []⟩
  return st.fs

end Program

/-! ## Command streams -/

/-- A row of a command stream: a read or a write of an address of eight hexadecimal digits.  A
configuration register is written with 32 digits. -/
structure FloatRow extends FlexRow where
  addrDigits : Str
  mode_eq : mode = "R".toList ∨ mode = "W".toList
  addr_eq : addr = hexText addrDigits
  addr_length : addrDigits.length = 8
  addr_digits : ∀ c ∈ addrDigits, isDigit 16 c = true
  addr_lt : addr = "0xdeaddead".toList ∨ ofDigits 16 addrDigits < 2 ^ 31
  config_length : addrDigits.drop 2 = "400020".toList → digits.length = 32

namespace FloatRow

variable (r : FloatRow)

/-- The address. -/
def addrNat : ℕ := ofDigits 16 r.addrDigits

/-- Byte `j` of the data, the lowest first. -/
def byte (j : ℕ) : BitVec 8 := .ofNat 8 (r.value / 256 ^ j)

/-- The row is not skipped. -/
def Written : Prop := r.mode ≠ "R".toList ∧ r.addr ≠ "0xdeaddead".toList

/-- The program takes the row for a configuration write. -/
def Configures : Prop := r.Written ∧ r.addrDigits.drop 2 = "400020".toList

/-- A write to the configuration register of processing element `p`, at `0x34400020` for the first
one. -/
def ConfiguresPE (p : Fin 4) : Prop :=
  r.Written ∧ r.addrDigits = '3' :: (4 + p.val).digitChar :: "400020".toList

/-- A write to the weights of processing element `p`. -/
def WritesWeight (p : Fin 4) : Prop :=
  r.Written ∧ 0x34500000 + p.val * 2 ^ 24 ≤ r.addrNat ∧ r.addrNat ≤ 0x345fffff + p.val * 2 ^ 24

/-- A write to the bias vectors of processing element `p`. -/
def WritesBias (p : Fin 4) : Prop :=
  r.Written ∧ 0x34600000 + p.val * 2 ^ 24 ≤ r.addrNat ∧ r.addrNat ≤ 0x346fffff + p.val * 2 ^ 24

/-- A write to the large buffer. -/
def WritesGB : Prop := r.Written ∧ 0x33500000 ≤ r.addrNat ∧ r.addrNat ≤ 0x335fffff

instance : DecidablePred Written := fun _ => inferInstanceAs (Decidable (_ ∧ _))

instance : DecidablePred Configures := fun _ => inferInstanceAs (Decidable (_ ∧ _))

instance (p : Fin 4) : DecidablePred (ConfiguresPE · p) :=
  fun _ => inferInstanceAs (Decidable (_ ∧ _))

instance (p : Fin 4) : DecidablePred (WritesWeight · p) :=
  fun _ => inferInstanceAs (Decidable (_ ∧ _))

instance (p : Fin 4) : DecidablePred (WritesBias · p) :=
  fun _ => inferInstanceAs (Decidable (_ ∧ _))

instance : DecidablePred WritesGB := fun _ => inferInstanceAs (Decidable (_ ∧ _))

/-- The program prints a line for the row. -/
def Prints : Prop := r.WritesGB ∨ ∃ p, r.WritesWeight p ∨ r.WritesBias p

instance : DecidablePred Prints := fun _ => inferInstanceAs (Decidable (_ ∨ _))

/-- The data converted with a bias, the highest byte first. -/
def floats {F : Type} (toFloat : BitVec 8 → BitVec 8 → F) (bias : BitVec 8) : List F :=
  (List.range 16).map fun i => toFloat (r.byte (15 - i)) bias

end FloatRow

/-- The text of a stream. -/
def streamText (rows : List FloatRow) : Str := flexText (rows.map FloatRow.toFlexRow)

/-- The most recent configuration write to processing element `p`. -/
def lastConfigPE (p : Fin 4) (rows : List FloatRow) : Option FloatRow :=
  lastWhere (fun r => decide (r.ConfiguresPE p)) rows

/-- The most recent configuration write of all. -/
def lastConfig (rows : List FloatRow) : Option FloatRow :=
  lastWhere (fun r => decide r.Configures) rows

/-- **The purpose of the program**: whatever the conversion and the bias variables at the start, there
is one line for each write to a data region, and where the processing element has been configured,
its weights are converted with byte 1 of its most recent configuration and its bias vectors with
byte 2. -/
def ConvertsAsProgrammed (rows : List FloatRow) : Prop :=
  ∀ (F : Type) (toFloat : BitVec 8 → BitVec 8 → F) (weight bias : BitVec 8), ∃ lines,
    extractFloatData toFloat weight bias (streamText rows) = some lines ∧
    List.Forall₂ (fun (x : List FloatRow × FloatRow) (line : FloatLine F) =>
      line.addr = x.2.addrNat ∧ ∀ p, ∀ c ∈ lastConfigPE p x.1,
        (x.2.WritesWeight p → line.floats = x.2.floats toFloat (c.byte 1)) ∧
        (x.2.WritesBias p → line.floats = x.2.floats toFloat (c.byte 2)))
      ((histories [] rows).filter fun x => x.2.Prints) lines

/-- Wherever data of a configured processing element is written, the byte the program uses is the
one it should use: byte 1 of the most recent configuration of all is the byte of the most recent
configuration of this element, byte 1 for weights and byte 2 for bias vectors. -/
def BiasBytesAgree (rows : List FloatRow) : Prop :=
  ∀ pre r post, rows = pre ++ r :: post → ∀ p, ∀ c ∈ lastConfigPE p pre, ∀ d ∈ lastConfig pre,
    (r.WritesWeight p → d.byte 1 = c.byte 1) ∧ (r.WritesBias p → d.byte 1 = c.byte 2)

/-! ## Regions -/

lemma contains_of_regionOf {a : ℕ} {g : Region} (h : regionOf a = some g) :
    g ∈ regions ∧ g.Contains a :=
  ⟨List.mem_of_find?_eq_some h, by simpa using List.find?_some h⟩

lemma weight_mem_regions : ∀ p : Fin 4, ∃ g ∈ regions, g.lo = 0x34500000 + p.val * 2 ^ 24 ∧
    g.hi = 0x345fffff + p.val * 2 ^ 24 ∧ g.var = .weight := by decide

lemma bias_mem_regions : ∀ p : Fin 4, ∃ g ∈ regions, g.lo = 0x34600000 + p.val * 2 ^ 24 ∧
    g.hi = 0x346fffff + p.val * 2 ^ 24 ∧ g.var = .bias := by decide

lemma regions_apart : ∀ g ∈ regions, ∀ g' ∈ regions,
    g.hi < g'.lo ∨ g'.hi < g.lo ∨ g.var = g'.var := by decide

/-- All ranges with an address take the same bias variable. -/
lemma var_of_regionOf {a : ℕ} {g g' : Region} (hg : regionOf a = some g) (hg' : g' ∈ regions)
    (ha : g'.Contains a) : g.var = g'.var := by
  obtain ⟨hmem, hcontains⟩ := contains_of_regionOf hg
  rw [Region.Contains] at ha hcontains
  rcases regions_apart g hmem g' hg' with h | h | h
  · omega
  · omega
  · exact h

/-- The weights of every processing element are converted with `bias_weight`. -/
lemma var_of_weight {a : ℕ} {g : Region} (hg : regionOf a = some g) (p : Fin 4)
    (ha : 0x34500000 + p.val * 2 ^ 24 ≤ a ∧ a ≤ 0x345fffff + p.val * 2 ^ 24) : g.var = .weight := by
  obtain ⟨g', hmem, hlo, hhi, hvar⟩ := weight_mem_regions p
  exact (var_of_regionOf hg hmem ⟨hlo ▸ ha.1, hhi ▸ ha.2⟩).trans hvar

/-- The bias vectors of every processing element are converted with `bias_bias`. -/
lemma var_of_bias {a : ℕ} {g : Region} (hg : regionOf a = some g) (p : Fin 4)
    (ha : 0x34600000 + p.val * 2 ^ 24 ≤ a ∧ a ≤ 0x346fffff + p.val * 2 ^ 24) : g.var = .bias := by
  obtain ⟨g', hmem, hlo, hhi, hvar⟩ := bias_mem_regions p
  exact (var_of_regionOf hg hmem ⟨hlo ▸ ha.1, hhi ▸ ha.2⟩).trans hvar

/-- The nine ranges are the large buffer and two for each processing element. -/
lemma isSome_regionOf (a : ℕ) : (regionOf a).isSome ↔ (0x33500000 ≤ a ∧ a ≤ 0x335fffff) ∨
    ∃ p : Fin 4, (0x34500000 + p.val * 2 ^ 24 ≤ a ∧ a ≤ 0x345fffff + p.val * 2 ^ 24) ∨
      (0x34600000 + p.val * 2 ^ 24 ≤ a ∧ a ≤ 0x346fffff + p.val * 2 ^ 24) := by
  simp only [regionOf, List.find?_isSome, decide_eq_true_eq]
  constructor
  · rintro ⟨g, hmem, hcontains⟩
    rw [Region.Contains] at hcontains
    simp only [regions, List.mem_cons, List.not_mem_nil, or_false] at hmem
    rcases hmem with rfl | rfl | rfl | rfl | rfl | rfl | rfl | rfl | rfl
    · exact Or.inl hcontains
    · exact Or.inr ⟨0, Or.inl hcontains⟩
    · exact Or.inr ⟨0, Or.inr hcontains⟩
    · exact Or.inr ⟨1, Or.inl hcontains⟩
    · exact Or.inr ⟨1, Or.inr hcontains⟩
    · exact Or.inr ⟨2, Or.inl hcontains⟩
    · exact Or.inr ⟨2, Or.inr hcontains⟩
    · exact Or.inr ⟨3, Or.inl hcontains⟩
    · exact Or.inr ⟨3, Or.inr hcontains⟩
  · rintro (h | ⟨p, h | h⟩)
    · exact ⟨_, List.mem_cons_self, h⟩
    · obtain ⟨g, hmem, hlo, hhi, -⟩ := weight_mem_regions p
      exact ⟨g, hmem, hlo ▸ h.1, hhi ▸ h.2⟩
    · obtain ⟨g, hmem, hlo, hhi, -⟩ := bias_mem_regions p
      exact ⟨g, hmem, hlo ▸ h.1, hhi ▸ h.2⟩

/-! ## One row -/

section Digits

variable {ds : Str} (hds : ∀ c ∈ ds, isDigit 16 c = true)
include hds

/-- A pair of digits as eight bits. -/
lemma ofInt_hexByte {j : ℕ} (hj : j < 16) :
    BitVec.ofInt 8 (ofDigits 16 (hexByte 16 ds j) : ℕ) = .ofNat 8 (ofDigits 16 ds / 256 ^ j) := by
  rw [ofDigits_hexByte hds hj, BitVec.ofInt_natCast]
  exact BitVec.eq_of_toNat_eq (by simp)

/-- A configuration write sets two bias variables to byte 1 and one to byte 3. -/
lemma configure_hexText (hlen : ds.length = 32) :
    configure (hexText ds) = some ⟨.ofNat 8 (ofDigits 16 ds / 256 ^ 1),
      .ofNat 8 (ofDigits 16 ds / 256 ^ 1), .ofNat 8 (ofDigits 16 ds / 256 ^ 3)⟩ := by
  have hword : hexWord 16 ds = ds := hexWord_of_length hlen
  have hcut : ∀ j < 16, substr (hexText ds) (32 - 2 * j) 2 = some (hexByte 16 ds j) := by
    intro j hj
    have hpos : 32 - 2 * j = (30 - 2 * j) + 1 + 1 := by omega
    have hslice := substr_hexWord 16 ds j
    rw [hword, substr, if_pos (by omega)] at hslice
    rw [substr, if_pos (by simp [hexText]; omega), hpos]
    exact hslice
  have hsize : (hexText ds).length = 34 := by simp [hexText, hlen]
  have h₁ : sizeT (((34 : ℕ) : ℤ) - 4) = 32 - 2 * 1 := by decide
  have h₂ : sizeT (((34 : ℕ) : ℤ) - 6) = 32 - 2 * 2 := by decide
  have h₃ : sizeT (((34 : ℕ) : ℤ) - 8) = 32 - 2 * 3 := by decide
  rw [configure, hsize, h₁, h₂, h₃, hcut 1 (by decide), hcut 2 (by decide), hcut 3 (by decide)]
  simp only [Option.bind_eq_bind, Option.bind_some, stoi_hexByte (by decide : 0 < 16) hds,
    ofInt_hexByte hds (by decide : 1 < 16), ofInt_hexByte hds (by decide : 3 < 16), Option.pure_def]

/-- The bytes of a word are converted from the left. -/
lemma convertBytes_hexWord {F : Type} (toFloat : BitVec 8 → BitVec 8 → F) (bias : BitVec 8) :
    convertBytes toFloat bias (hexWord 16 ds) = some ((List.range 16).map fun i =>
      toFloat (.ofNat 8 (ofDigits 16 ds / 256 ^ (15 - i))) bias) := by
  refine mapM_eq_some_map ?_
  intro i hi
  have hi := List.mem_range.mp hi
  have hslice : substr (hexWord 16 ds) (i * 2) 2 = some (hexByte 16 ds (15 - i)) := by
    have hpos : i * 2 = 2 * 16 - 2 - 2 * (15 - i) := by omega
    rw [hpos]
    exact substr_hexWord 16 ds (15 - i)
  simp only [hslice, Option.bind_eq_bind, Option.bind_some, stoi_hexByte (by decide : 0 < 16) hds,
    ofInt_hexByte hds (by omega : 15 - i < 16), Option.pure_def]

end Digits

namespace FloatRow

variable (r : FloatRow)

/-- The bias variables after the row. -/
def biasesAfter (b : Biases) : Biases :=
  if r.Configures then ⟨r.byte 1, r.byte 1, r.byte 3⟩ else b

/-- The lines printed for the row. -/
def linesOf {F : Type} (toFloat : BitVec 8 → BitVec 8 → F) (b : Biases) : List (FloatLine F) :=
  if r.Written then
    match regionOf r.addrNat with
    | none => []
    | some g => [⟨g.heading, r.addrNat, r.floats toFloat (b.get g.var)⟩]
  else []

/-- The six digits behind the unit number, in place-value terms. -/
lemma addrNat_mod (h : r.Configures) : r.addrNat % 2 ^ 24 = 0x400020 := by
  have hdrop := ofDigits_drop (by decide) r.addr_digits 6
  rw [r.addr_length, h.2] at hdrop
  exact hdrop.symm

/-- No configuration register lies in a data region. -/
lemma regionOf_configures (h : r.Configures) : regionOf r.addrNat = none := by
  have hmod := r.addrNat_mod h
  rw [← Option.not_isSome_iff_eq_none, isSome_regionOf]
  rintro (hgb | ⟨p, hp | hp⟩)
  · omega
  · omega
  · omega

lemma linesOf_configures {F : Type} (toFloat : BitVec 8 → BitVec 8 → F) (b : Biases)
    (h : r.Configures) : r.linesOf toFloat b = [] := by
  rw [linesOf, r.regionOf_configures h, if_pos h.1]

section Step

variable {F : Type} (toFloat : BitVec 8 → BitVec 8 → F) (b : Biases) (fs : List (FloatLine F))

lemma floatStep_skipped (hw : ¬ r.Written) : floatStep toFloat ⟨b, fs⟩ r.fields = some ⟨b, fs⟩ := by
  rw [FlexRow.fields, floatStep]
  by_cases hmode : r.mode = "R".toList
  · rw [if_pos hmode]
  · have haddr : r.addr = "0xdeaddead".toList := by
      by_contra haddr
      exact hw ⟨hmode, haddr⟩
    rw [if_neg hmode, if_pos haddr]

lemma substrFrom_addr : substrFrom r.addr 4 = some (r.addrDigits.drop 2) := by
  rw [r.addr_eq, substrFrom, if_pos (by simp [hexText, r.addr_length])]
  rfl

lemma floatStep_configures (hc : r.Configures) : floatStep toFloat ⟨b, fs⟩ r.fields
    = some ⟨⟨r.byte 1, r.byte 1, r.byte 3⟩, fs⟩ := by
  rw [FlexRow.fields, floatStep, if_neg hc.1.1, if_neg hc.1.2]
  simp only [r.stripCr_data, dataFormat_hexText, r.substrFrom_addr, Option.bind_eq_bind,
    Option.bind_some]
  rw [if_pos hc.2, configure_hexText r.digits_hex (r.config_length hc.2)]
  rfl

lemma stoi_addr (hw : r.Written) : stoi 16 r.addr = some (r.addrNat : ℤ) := by
  have hne : r.addrDigits ≠ [] := by
    rw [← List.length_pos_iff, r.addr_length]
    decide
  rw [r.addr_eq, stoi_hexText hne r.addr_digits]
  exact if_pos (r.addr_lt.resolve_left hw.2)

lemma floatStep_data (hw : r.Written) (hc : ¬ r.Configures) :
    floatStep toFloat ⟨b, fs⟩ r.fields = some ⟨b, fs ++ r.linesOf toFloat b⟩ := by
  have hconfig : r.addrDigits.drop 2 ≠ "400020".toList := fun hconfig => hc ⟨hw, hconfig⟩
  have hlt : r.addrNat < 2 ^ 31 := r.addr_lt.resolve_left hw.2
  have haddr : ((r.addrNat : ℤ) % 2 ^ 32).toNat = r.addrNat := by omega
  rw [FlexRow.fields, floatStep, if_neg hw.1, if_neg hw.2, linesOf, if_pos hw]
  simp only [r.stripCr_data, dataFormat_hexText, r.substrFrom_addr, Option.bind_eq_bind,
    Option.bind_some, if_neg hconfig, r.stoi_addr hw, haddr]
  cases regionOf r.addrNat with
  | none => simp
  | some g =>
      simp only [convertBytes_hexWord r.digits_hex, Option.bind_some]
      rfl

/-- **One turn of the loop.** -/
lemma floatStep_fields : floatStep toFloat ⟨b, fs⟩ r.fields
    = some ⟨r.biasesAfter b, fs ++ r.linesOf toFloat b⟩ := by
  by_cases hw : r.Written
  · by_cases hc : r.Configures
    · rw [r.floatStep_configures toFloat b fs hc, biasesAfter, if_pos hc,
        r.linesOf_configures toFloat b hc, List.append_nil]
    · rw [r.floatStep_data toFloat b fs hw hc, biasesAfter, if_neg hc]
  · rw [r.floatStep_skipped toFloat b fs hw, biasesAfter, if_neg fun hc => hw hc.1, linesOf,
      if_neg hw, List.append_nil]

end Step

end FloatRow

/-! ## Streams -/

/-- The bias variables after a stream. -/
def biasesAt (weight bias : BitVec 8) (rows : List FloatRow) : Biases :=
  rows.foldl (fun b r => r.biasesAfter b) ⟨weight, bias, 1⟩

/-- **The bias variables hold two bytes of the most recent configuration of all**, byte 1 twice. -/
lemma biasesAt_of_lastConfig (weight bias : BitVec 8) {rows : List FloatRow} {d : FloatRow}
    (h : d ∈ lastConfig rows) :
    biasesAt weight bias rows = ⟨d.byte 1, d.byte 1, d.byte 3⟩ := by
  have hreg := foldl_overwrite (fun r : FloatRow => decide r.Configures)
    (fun r => (⟨r.byte 1, r.byte 1, r.byte 3⟩ : Biases)) ⟨weight, bias, 1⟩ rows
  rw [lastConfig, Option.mem_def] at h
  simp only [decide_eq_true_eq, h] at hreg
  exact hreg

/-- **The lines printed for a stream**, each from the bias variables its history leads to. -/
theorem extractFloatData_streamText {F : Type} (toFloat : BitVec 8 → BitVec 8 → F)
    (weight bias : BitVec 8) (rows : List FloatRow) :
    extractFloatData toFloat weight bias (streamText rows) = some ((histories [] rows).flatMap
      fun x => x.2.linesOf toFloat (biasesAt weight bias x.1)) := by
  have hrun := @foldlM_histories FloatRow (FloatLine F) Biases (FloatState F)
    (fun st r => floatStep toFloat st r.fields) .mk (fun b r => r.biasesAfter b)
    (fun b r => r.linesOf toFloat b) rows (fun b fs r _ => r.floatStep_fields toFloat b fs)
    ⟨weight, bias, 1⟩ [] []
  rw [extractFloatData, streamText, readRows_flexText, Option.bind_eq_bind, Option.bind_some,
    List.map_map, List.foldlM_map]
  simp only [Function.comp_apply, List.foldl_nil] at hrun ⊢
  rw [hrun, Option.bind_eq_bind, Option.bind_some, List.nil_append]
  rfl

namespace FloatRow

variable (r : FloatRow) {F : Type} (toFloat : BitVec 8 → BitVec 8 → F)

/-- The rows a line is printed for are those in the data regions. -/
lemma prints_iff : r.Prints ↔ r.Written ∧ (regionOf r.addrNat).isSome := by
  rw [isSome_regionOf, Prints, WritesGB]
  constructor
  · rintro (h | ⟨p, h | h⟩)
    · exact ⟨h.1, Or.inl h.2⟩
    · exact ⟨h.1, Or.inr ⟨p, Or.inl h.2⟩⟩
    · exact ⟨h.1, Or.inr ⟨p, Or.inr h.2⟩⟩
  · rintro ⟨hw, h | ⟨p, h | h⟩⟩
    · exact Or.inl ⟨hw, h⟩
    · exact Or.inr ⟨p, Or.inl ⟨hw, h⟩⟩
    · exact Or.inr ⟨p, Or.inr ⟨hw, h⟩⟩

lemma linesOf_of_prints (b : Biases) (h : r.Prints) : ∃ line, r.linesOf toFloat b = [line] := by
  obtain ⟨hw, hg⟩ := r.prints_iff.mp h
  obtain ⟨g, hg⟩ := Option.isSome_iff_exists.mp hg
  exact ⟨_, by rw [linesOf, if_pos hw, hg]⟩

lemma linesOf_of_not_prints (b : Biases) (h : ¬ r.Prints) : r.linesOf toFloat b = [] := by
  rw [linesOf]
  split_ifs with hw
  · have hg : regionOf r.addrNat = none := by
      by_contra hg
      exact h (r.prints_iff.mpr ⟨hw, Option.isSome_iff_ne_none.mpr hg⟩)
    rw [hg]
  · rfl

variable {toFloat}

/-- A line of the row: heading and bias are those of its region. -/
lemma of_mem_linesOf {b : Biases} {line : FloatLine F} (h : line ∈ r.linesOf toFloat b) :
    ∃ g, regionOf r.addrNat = some g ∧
      line = ⟨g.heading, r.addrNat, r.floats toFloat (b.get g.var)⟩ := by
  rw [linesOf] at h
  split_ifs at h with hw
  · cases hg : regionOf r.addrNat with
    | none => simp [hg] at h
    | some g =>
        rw [hg] at h
        exact ⟨g, rfl, List.mem_singleton.mp h⟩
  · simp at h

lemma floats_of_weight {b : Biases} {line : FloatLine F} (h : line ∈ r.linesOf toFloat b)
    {p : Fin 4} (hp : r.WritesWeight p) : line.floats = r.floats toFloat b.weight := by
  obtain ⟨g, hg, rfl⟩ := r.of_mem_linesOf h
  simp only [var_of_weight hg p hp.2, Biases.get]

lemma floats_of_bias {b : Biases} {line : FloatLine F} (h : line ∈ r.linesOf toFloat b)
    {p : Fin 4} (hp : r.WritesBias p) : line.floats = r.floats toFloat b.bias := by
  obtain ⟨g, hg, rfl⟩ := r.of_mem_linesOf h
  simp only [var_of_bias hg p hp.2, Biases.get]

/-- The bias can be told from the floats when the conversion keeps it. -/
lemma floats_injective : Function.Injective (@floats r (BitVec 8 × BitVec 8) Prod.mk) := by
  intro u v h
  have hfirst := congrArg List.head? h
  simp only [floats, List.head?_map, List.head?_range] at hfirst
  simpa using hfirst

/-- A configuration register of an element ends with the digits the program looks for. -/
lemma configures_of_pe {p : Fin 4} (h : r.ConfiguresPE p) : r.Configures :=
  ⟨h.1, by rw [h.2]; rfl⟩

end FloatRow

/-- Where an element has been configured there is a most recent configuration of all. -/
lemma exists_lastConfig {p : Fin 4} {pre : List FloatRow} {c : FloatRow}
    (h : c ∈ lastConfigPE p pre) : ∃ d, d ∈ lastConfig pre := by
  obtain ⟨hmem, hc⟩ := mem_of_lastWhere h
  exact exists_lastWhere hmem (by simpa using c.configures_of_pe (by simpa using hc))

/-- The purpose, row by row. -/
lemma convertsAsProgrammed_rows (rows : List FloatRow) : ConvertsAsProgrammed rows ↔
    ∀ (F : Type) (toFloat : BitVec 8 → BitVec 8 → F) (weight bias : BitVec 8),
      ∀ x ∈ histories [] rows, x.2.Prints →
        ∀ line ∈ x.2.linesOf toFloat (biasesAt weight bias x.1),
          line.addr = x.2.addrNat ∧ ∀ p, ∀ c ∈ lastConfigPE p x.1,
            (x.2.WritesWeight p → line.floats = x.2.floats toFloat (c.byte 1)) ∧
            (x.2.WritesBias p → line.floats = x.2.floats toFloat (c.byte 2)) := by
  unfold ConvertsAsProgrammed
  simp only [extractFloatData_streamText, Option.some_inj, exists_eq_left']
  refine forall_congr' fun F => forall_congr' fun toFloat => forall_congr' fun weight =>
    forall_congr' fun bias => ?_
  exact forall₂_filter_flatMap (fun x _ hx => x.2.linesOf_of_prints toFloat _ hx)
    fun x _ hx => x.2.linesOf_of_not_prints toFloat _ hx

/-- A conversion that keeps the bias tells which byte was used. -/
lemma biasBytesAgree_of_converts {rows : List FloatRow} (h : ConvertsAsProgrammed rows) :
    BiasBytesAgree rows := by
  intro pre r post hrows p c hc d hd
  have hx : (pre, r) ∈ histories [] rows := mem_histories.mpr ⟨pre, post, rfl, hrows⟩
  have hrow := (convertsAsProgrammed_rows rows).mp h (BitVec 8 × BitVec 8) Prod.mk 0 0 (pre, r) hx
  have hbiases := biasesAt_of_lastConfig 0 0 hd
  have hline : r.Prints → ∃ line, line ∈ r.linesOf Prod.mk (biasesAt 0 0 pre) := by
    intro hprints
    obtain ⟨line, hline⟩ := r.linesOf_of_prints Prod.mk (biasesAt 0 0 pre) hprints
    exact ⟨line, hline ▸ List.mem_singleton_self line⟩
  constructor
  · intro hp
    have hprints : r.Prints := Or.inr ⟨p, Or.inl hp⟩
    obtain ⟨line, hmem⟩ := hline hprints
    have hdue := ((hrow hprints line hmem).2 p c hc).1 hp
    rw [r.floats_of_weight hmem hp, hbiases] at hdue
    exact r.floats_injective hdue
  · intro hp
    have hprints : r.Prints := Or.inr ⟨p, Or.inr hp⟩
    obtain ⟨line, hmem⟩ := hline hprints
    have hdue := ((hrow hprints line hmem).2 p c hc).2 hp
    rw [r.floats_of_bias hmem hp, hbiases] at hdue
    exact r.floats_injective hdue

/-- Where the bytes agree it makes no difference which of them is used. -/
lemma converts_of_biasBytesAgree {rows : List FloatRow} (h : BiasBytesAgree rows) :
    ConvertsAsProgrammed rows := by
  rw [convertsAsProgrammed_rows]
  rintro F toFloat weight bias ⟨pre, r⟩ hx - line hline
  obtain ⟨mid, post, rfl, hrows⟩ := mem_histories.mp hx
  refine ⟨?_, ?_⟩
  · obtain ⟨g, -, rfl⟩ := r.of_mem_linesOf hline
    rfl
  · intro p c hc
    obtain ⟨d, hd⟩ := exists_lastConfig hc
    obtain ⟨hweight, hbias⟩ := h pre r post hrows p c hc d hd
    rw [biasesAt_of_lastConfig weight bias hd] at hline
    refine ⟨?_, ?_⟩
    · intro hp
      rw [r.floats_of_weight hline hp, hweight hp]
    · intro hp
      rw [r.floats_of_bias hline hp, hbias hp]

/-- **When the data is converted as programmed**: over every stream, exactly when the bytes agree at
each write to the data of a configured processing element. -/
theorem convertsAsProgrammed_iff (rows : List FloatRow) :
    ConvertsAsProgrammed rows ↔ BiasBytesAgree rows :=
  ⟨biasBytesAgree_of_converts, converts_of_biasBytesAgree⟩

/-- Nothing shows as long as all configurations carry the same byte in both places. -/
theorem converts_of_uniform {rows : List FloatRow} {b : BitVec 8}
    (h : ∀ r ∈ rows, r.Configures → r.byte 1 = b ∧ r.byte 2 = b) : ConvertsAsProgrammed rows := by
  refine converts_of_biasBytesAgree ?_
  rintro pre r post rfl p c hc d hd
  obtain ⟨hcmem, hcpe⟩ := mem_of_lastWhere hc
  obtain ⟨hdmem, hdconfig⟩ := mem_of_lastWhere hd
  have hcb := h c (List.mem_append_left _ hcmem) (c.configures_of_pe (by simpa using hcpe))
  have hdb := h d (List.mem_append_left _ hdmem) (by simpa using hdconfig)
  exact ⟨fun _ => hdb.1.trans hcb.1.symm, fun _ => hdb.1.trans hcb.2.symm⟩

/-! ### The bias of the bias vectors -/

/-- A configuration of the first processing element: byte 1 is `2` and byte 2 is `3`. -/
def slipConfig : FloatRow where
  tag := ['2']
  mode := ['W']
  addr := hexText "34400020".toList
  digits := '0' :: "0000000000000000000000000030200".toList
  crlf := false
  addrDigits := "34400020".toList
  comma_not_mem_tag := not_mem_of_all rfl
  comma_not_mem_mode := FlexRow.comma_not_mem_w
  comma_not_mem_addr := not_mem_of_all rfl
  digits_ne_nil := List.cons_ne_nil _ _
  digits_hex := List.all_eq_true.mp (by decide)
  mode_eq := Or.inr rfl
  addr_eq := rfl
  addr_length := by decide
  addr_digits := List.all_eq_true.mp (by decide)
  addr_lt := Or.inr (by decide)
  config_length := fun _ => rfl

/-- Data for its bias vectors. -/
def slipBias : FloatRow where
  tag := ['2']
  mode := ['W']
  addr := hexText "34600000".toList
  digits := ['5', 'A']
  crlf := false
  addrDigits := "34600000".toList
  comma_not_mem_tag := not_mem_of_all rfl
  comma_not_mem_mode := FlexRow.comma_not_mem_w
  comma_not_mem_addr := not_mem_of_all rfl
  digits_ne_nil := List.cons_ne_nil _ _
  digits_hex := List.all_eq_true.mp (by decide)
  mode_eq := Or.inr rfl
  addr_eq := rfl
  addr_length := by decide
  addr_digits := List.all_eq_true.mp (by decide)
  addr_lt := Or.inr (by decide)
  config_length := fun h => absurd (congrArg List.head? h) (by decide)

/-- The bias vectors are converted with byte 1 of the configuration, not with byte 2. -/
theorem not_convertsAsProgrammed : ¬ ∀ rows : List FloatRow, ConvertsAsProgrammed rows := by
  intro h
  have hagree := biasBytesAgree_of_converts (h [slipConfig, slipBias])
  have hconfig : slipConfig ∈ lastConfigPE 0 [slipConfig] :=
    (lastWhere_concat _ [] slipConfig).trans (if_pos (by decide))
  have hlast : slipConfig ∈ lastConfig [slipConfig] :=
    (lastWhere_concat _ [] slipConfig).trans (if_pos (by decide))
  obtain ⟨-, hbias⟩ := hagree [slipConfig] slipBias [] rfl 0 slipConfig hconfig slipConfig hlast
  exact absurd (hbias (by decide)) (by decide)

end ThreeLaSim
