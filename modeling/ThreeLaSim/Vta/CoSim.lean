import ThreeLaSim.Core.History
import ThreeLaSim.Vta.InputGen

/-!
# The co-simulation of the VTA model

`run_all.sh` takes the log of the test library apart, makes a program fragment and the expected
results of each run, and calls the testbench for each line of `file_list`.  The log that comes with
the tools announces instructions as it announces micro-ops, and names its runs without blanks.

* `Conversion` — what a port makes of a text.
* **`extractSimLog_logged`** — such a log is taken apart run by run.
* **`cosim_verdict`** — every record of a run reaches the model, and a run passes exactly when the
  model ends with the printed outputs.
* **`cosim_library`** — on a log as the test library itself prints it, no run is simulated.
-/

namespace ThreeLaSim

open CText

/-! ## The log -/

/-- What stands between index and value in the log. -/
def RecordKind.logMid : RecordKind → Str
  | .instr => RecordKind.uop.mid
  | k => k.mid

namespace IlaRecord

variable (r : IlaRecord)

/-- The line of the log. -/
def logLine : Str := r.kind.lead ++ (dec r.index ++ (r.kind.logMid ++ r.valueText))

/-- The line behind the marker and one more character. -/
def logPayload : Str := r.kind.lead.drop 11 ++ (dec r.index ++ (r.kind.logMid ++ r.valueText))

/-- Only instructions are announced in another way than the test library prints them. -/
lemma logPayload_of_ne (h : r.kind ≠ .instr) : r.logPayload = r.payload := by
  have hmid : r.kind.logMid = r.kind.mid := by
    cases hk : r.kind with
    | instr => exact absurd hk h
    | uop | aluBias | aluOut | gemmInput | gemmWeight | gemmBias | gemmOutput => rfl
  rw [logPayload, payload, hmid]

/-- A line is the marker, one more character and the payload. -/
lemma logLine_eq : ∃ c, r.logLine = "[ILA-INFO".toList ++ ']' :: c :: r.logPayload := by
  obtain ⟨c, hc⟩ : ∃ c, r.kind.lead = "[ILA-INFO".toList ++ ']' :: c :: r.kind.lead.drop 11 := by
    cases r.kind <;> exact ⟨_, rfl⟩
  refine ⟨c, ?_⟩
  rw [logLine, logPayload, hc]
  simp

lemma stripLine_logLine : stripLine r.logLine = some r.logPayload := by
  obtain ⟨c, hline⟩ := r.logLine_eq
  have hfind : find [']'] r.logLine = some 9 := by
    rw [hline]
    exact find_char (by decide) (c :: r.logPayload)
  have hcut : r.logLine = ("[ILA-INFO".toList ++ [']', c]) ++ r.logPayload := by
    rw [hline]
    simp
  rw [stripLine, hfind, hcut]
  exact substrFrom_append rfl

lemma logLine_contains_info : contains ilaInfo r.logLine = true := by
  obtain ⟨c, hline⟩ := r.logLine_eq
  rw [contains_iff, hline]
  exact ⟨[], c :: r.logPayload, rfl⟩

lemma logLine_not_contains_end : contains testSuccessful r.logLine = false := by
  have hmem : '!' ∉ r.logLine := by
    rw [logLine]
    simp only [List.mem_append, not_or]
    refine ⟨?_, not_mem_dec (by decide) _, ?_, not_mem_digits r.isDigit_of_mem_valueText (by decide)⟩
    · cases r.kind <;> decide
    · cases r.kind <;> decide
  rw [contains_eq_false_iff]
  exact not_infix_of_not_mem (by decide) hmem

end IlaRecord

/-- A run that the log reports as successful.  Its name is one word for the shell, and a file
name. -/
structure LoggedRun where
  name : Str
  before : List OtherLine
  body : List (OtherLine ⊕ IlaRecord)
  endLine : Str
  name_ne_nil : name ≠ []
  name_plain : ∀ c ∈ name, c ∉ [' ', '\t', '\n', '*', '?', '[', '/']
  success : contains testSuccessful endLine = true

namespace LoggedRun

variable (r : LoggedRun)

def startLine : Str := "INFO [INSTR-START] - ".toList ++ r.name

def bodyLine : OtherLine ⊕ IlaRecord → Str
  | .inl o => o.text
  | .inr i => i.logLine

/-- Everything the log has of the run. -/
def log : List Str :=
  r.before.map OtherLine.text ++ (r.startLine :: r.body.map bodyLine) ++ [r.endLine]

/-- The records in order. -/
def records : List IlaRecord := TestRun.recordsOf r.body

/-- What the accelerator is given. -/
def inputs : List IlaRecord := r.records.filter (!·.kind.isOutput)

/-- What it should have produced. -/
def outputs : List IlaRecord := r.records.filter (·.kind.isOutput)

/-- The lines that are kept of the run. -/
def payloads : List Str := r.records.map IlaRecord.logPayload

/-- The whole log. -/
def logOf (runs : List LoggedRun) (trailer : List OtherLine) : List Str :=
  runs.flatMap LoggedRun.log ++ trailer.map OtherLine.text

lemma startLine_contains_start : contains instrStart r.startLine = true := by
  rw [contains_iff]
  refine ⟨"INFO ".toList, " - ".toList ++ r.name, ?_⟩
  rw [← List.append_assoc]
  rfl

/-- A start line up to its bracket. -/
lemma startLine_eq : r.startLine = "INFO [INSTR-START".toList ++ ']' :: (" - ".toList ++ r.name) := by
  have hlit : "INFO [INSTR-START] - ".toList =
      "INFO [INSTR-START".toList ++ ']' :: " - ".toList := by decide
  unfold startLine
  rw [hlit, List.append_assoc, List.cons_append]

/-- The name is what stands behind the bracket. -/
lemma substrFrom_startLine :
    substrFrom r.startLine (posAdd (find [']'] r.startLine) 4) = some r.name := by
  have hfind : find [']'] r.startLine = some 17 := by
    rw [startLine_eq]
    exact find_char (by decide) _
  rw [hfind]
  exact substrFrom_append rfl

end LoggedRun

section Extract

variable {fl : List Str} {f : Str}

/-- The inner loop on the body of a run. -/
lemma foldlM_logBody (fs : Str → Option (List Str)) (body : List (OtherLine ⊕ IlaRecord)) :
    (body.map LoggedRun.bodyLine).foldlM extractStep ⟨fl, fs, some f⟩ =
      some ⟨fl, Function.update fs f
        ((fs f).map (· ++ (TestRun.recordsOf body).map IlaRecord.logPayload)), some f⟩ := by
  induction body generalizing fs with
  | nil => simp [TestRun.recordsOf]
  | cons line body ih =>
      cases line with
      | inl o =>
          rw [List.map_cons, LoggedRun.bodyLine, foldlM_cons_some (extractStep_other _ o)]
          exact ih fs
      | inr i =>
          have hstep : extractStep ⟨fl, fs, some f⟩ i.logLine =
              some ⟨fl, Function.update fs f ((fs f).map (· ++ [i.logPayload])), some f⟩ := by
            simp [extractStep, i.logLine_not_contains_end, i.logLine_contains_info,
              i.stripLine_logLine]
          rw [List.map_cons, LoggedRun.bodyLine, foldlM_cons_some hstep]
          refine (ih _).trans ?_
          simp [TestRun.recordsOf, Function.comp_def]

/-- The log of one run: a new file with its lines. -/
lemma foldlM_log (fs : Str → Option (List Str)) (r : LoggedRun) :
    r.log.foldlM extractStep ⟨fl, fs, none⟩ =
      some ⟨fl ++ [r.name], Function.update fs r.name (some r.payloads), none⟩ := by
  have hstart : extractStep ⟨fl, fs, none⟩ r.startLine =
      some ⟨fl ++ [r.name], Function.update fs r.name (some []), some r.name⟩ := by
    simp [extractStep, r.startLine_contains_start, r.substrFrom_startLine]
  rw [LoggedRun.log, List.foldlM_append, List.foldlM_append, foldlM_other, Option.bind_eq_bind,
    Option.bind_some, foldlM_cons_some hstart, foldlM_logBody]
  simp [extractStep, r.success, LoggedRun.payloads, LoggedRun.records]

/-- **A log is taken apart run by run.** -/
theorem extractSimLog_logged (runs : List LoggedRun) (trailer : List OtherLine) :
    extractSimLog (LoggedRun.logOf runs trailer) = some ⟨runs.map LoggedRun.name,
      History.writeAll LoggedRun.name (fun r => some r.payloads) (fun _ => none) runs, none⟩ := by
  have hruns : ∀ fl fs, (runs.flatMap LoggedRun.log).foldlM extractStep ⟨fl, fs, none⟩ =
      some ⟨fl ++ runs.map LoggedRun.name,
        History.writeAll LoggedRun.name (fun r => some r.payloads) fs runs, none⟩ := by
    induction runs with
    | nil =>
        intro fl fs
        rw [List.map_nil, List.append_nil]
        rfl
    | cons r runs ih =>
        intro fl fs
        rw [List.flatMap_cons, List.foldlM_append, foldlM_log, Option.bind_eq_bind, Option.bind_some,
          ih, History.writeAll_cons, List.map_cons, List.append_assoc, List.singleton_append]
  rw [extractSimLog, LoggedRun.logOf, List.foldlM_append, hruns, Option.bind_eq_bind,
    Option.bind_some, foldlM_other, List.nil_append]

end Extract

/-! ## The program fragment -/

/-- The command made of an input record. -/
def IlaRecord.logCommand (r : IlaRecord) (instrCntr : ℕ) : Command :=
  if r.kind = .instr then instrCommand instrCntr r.valueText else r.command instrCntr

/-- The step of the tool on a record. -/
def GenState.addLog (st : GenState) (r : IlaRecord) : GenState :=
  if r.kind.isOutput then { st with resultV := st.resultV ++ [r.result] }
  else st.push (r.logCommand st.instrCntr)

namespace IlaRecord

variable (r : IlaRecord)

/-- The colon of the announcement leads to the word. -/
lemma instrLine_logPayload (st : GenState) (h : r.kind = .instr) :
    parseLine st r.logPayload = some (st.push (instrCommand st.instrCntr r.valueText)) := by
  have hcut : r.logPayload = (" instr No.".toList ++ (dec r.index ++ " \t info".toList)) ++
      ':' :: ' ' :: r.valueText := by
    have hlead : RecordKind.instr.lead.drop 11 = " instr No.".toList := by decide
    have hmid : RecordKind.instr.logMid = " \t info".toList ++ [':', ' '] := by decide
    rw [logPayload, h, hlead, hmid]
    simp only [List.append_assoc, List.cons_append, List.nil_append]
  have hdata : dataField r.logPayload 32 = some r.valueText := by
    rw [hcut]
    refine dataField_append ?_ ?_
    · simp only [List.mem_append, not_or]
      exact ⟨by decide, not_mem_dec (by decide) _, by decide⟩
    · rw [length_valueText, h]
      rfl
  have hno : ∀ needle : Str, ∀ c ∈ needle, isDigit 16 c = false → c ∉ " instr No.".toList →
      c ∉ " \t info: ".toList → ¬ contains needle r.logPayload = true := by
    intro needle c hc hdigit hlead hmid
    rw [contains_iff]
    refine not_infix_of_not_mem hc ?_
    rw [logPayload, h]
    simp only [List.mem_append, not_or]
    exact ⟨hlead, not_mem_digits (isDigit_of_mem_dec r.index) hdigit, hmid,
      not_mem_digits r.isDigit_of_mem_valueText hdigit⟩
  have hyes : contains "instr".toList r.logPayload = true := by
    rw [contains_iff, logPayload, h]
    exact List.infix_append_of_infix_left (by decide)
  rw [parseLine, if_neg (hno _ '_' (by decide) (by decide) (by decide) (by decide)),
    if_neg (hno _ '_' (by decide) (by decide) (by decide) (by decide)),
    if_neg (hno _ '_' (by decide) (by decide) (by decide) (by decide)),
    if_neg (hno _ 'u' (by decide) (by decide) (by decide) (by decide)), if_pos hyes, instrLine, hdata]
  rfl

/-- **One turn of `input_gen` on a line of the log.** -/
theorem parseLine_logPayload (st : GenState) : parseLine st r.logPayload = some (st.addLog r) := by
  by_cases h : r.kind = .instr
  · have hinput : ¬ r.kind.isOutput = true := by
      rw [h]
      decide
    rw [r.instrLine_logPayload st h, GenState.addLog, if_neg hinput, logCommand, if_pos h]
  · rw [r.logPayload_of_ne h, r.parseLine_payload, GenState.addLog, GenState.add, logCommand, if_neg h]

end IlaRecord

/-- The commands made of the inputs, numbered from `n`. -/
def logCommands (n : ℕ) (inputs : List IlaRecord) : List Command :=
  (inputs.zipIdx n).map fun p => p.1.logCommand p.2

/-- `input_gen` on the lines of a run. -/
lemma foldlM_logPayloads (records : List IlaRecord) (st : GenState) : ∃ n,
    (records.map IlaRecord.logPayload).foldlM parseLine st =
      some ⟨st.cmdV ++ logCommands st.instrCntr (records.filter (!·.kind.isOutput)),
        st.resultV ++ resultsOf records, n⟩ := by
  induction records generalizing st with
  | nil => exact ⟨st.instrCntr, by simp [logCommands, resultsOf]⟩
  | cons r records ih =>
      obtain ⟨n, hrest⟩ := ih (st.addLog r)
      refine ⟨n, ?_⟩
      rw [List.map_cons, foldlM_cons_some (r.parseLine_logPayload st), hrest]
      by_cases h : r.kind.isOutput
      · simp [GenState.addLog, logCommands, resultsOf, h]
      · simp [GenState.addLog, GenState.push, logCommands, resultsOf, h]

/-- `input_gen` on the files of `file_list`: what it writes, by the name of the file.  A file that is
not there has no lines. -/
def inputGenFiles (out : ExtractState) : Option (Str → Option GenState) :=
  out.fileList.foldlM (fun written logFileName => do
    let st ← inputGen ((out.files logFileName).getD [])
    return Function.update written logFileName (some st)) fun _ => none

/-- When no file makes the tool fail, it writes what it makes of each, and nothing else. -/
lemma inputGenFiles_spec {out : ExtractState}
    (h : ∀ name ∈ out.fileList, ∃ st, inputGen ((out.files name).getD []) = some st) :
    ∃ written, inputGenFiles out = some written ∧ (∀ name ∉ out.fileList, written name = none) ∧
      (out.fileList.Nodup → ∀ name ∈ out.fileList,
        written name = inputGen ((out.files name).getD [])) := by
  set gen : Str → GenState := fun name => (inputGen ((out.files name).getD [])).getD ⟨[], [], 0⟩
  have hgen : ∀ name ∈ out.fileList, inputGen ((out.files name).getD []) = some (gen name) := by
    intro name hname
    obtain ⟨st, hst⟩ := h name hname
    simp only [gen, hst, Option.getD_some]
  refine ⟨History.writeAll id (fun name => some (gen name)) (fun _ => none) out.fileList, ?_, ?_, ?_⟩
  · refine foldlM_eq_some_foldl ?_ _
    intro written name hname
    rw [hgen name hname]
    rfl
  · intro name hname
    exact History.writeAll_of_not_mem _ (by rwa [List.map_id])
  · intro hnodup name hname
    have hkeys : (out.fileList.map id).Nodup := by rwa [List.map_id]
    rw [hgen name hname]
    exact History.writeAll_of_mem _ hkeys hname

/-! ## The testbench -/

/-- The number that digits behind `0x` denote: the first digit carries the sign. -/
def signedValue (ds : Str) : ℤ :=
  if ofDigits 16 ds < 8 * 16 ^ (ds.length - 1) then ofDigits 16 ds
  else ofDigits 16 ds - 16 ^ ds.length

/-- `sc_biguint<w>` of a text, as far as the testbench relies on it. -/
structure Conversion where
  value : ℕ → Str → Option ℕ
  hex : ∀ (w : ℕ) {ds : Str}, ds ≠ [] → (∀ c ∈ ds, isDigit 16 c = true) →
    value w (hexText ds) = some (signedValue ds % 2 ^ w).toNat
  zero : ∀ w, value w "0".toList = some 0

/-- The ports of the model. -/
structure SimPorts where
  instrIn : ℕ
  memMode : ℕ
  memAddr : ℕ
  memUopIn : ℕ
  memInpIn : ℕ
  memWgtIn : ℕ
  memBiasIn : ℕ
  deriving DecidableEq

/-- One turn of `source_input`; none where a text is no number. -/
def drivePorts (conv : Conversion) (cmd : Command) : Option SimPorts := do
  let instrIn ← conv.value 128 cmd.instrIn
  let memUopIn ← conv.value 32 cmd.memUopIn
  let memInpIn ← conv.value 8 cmd.memInpIn
  let memWgtIn ← conv.value 8 cmd.memWgtIn
  let memBiasIn ← conv.value 32 cmd.memBiasIn
  return {
    instrIn := instrIn
    memMode := cmd.memMode % 2 ^ 3
    memAddr := (cmd.memAddr % 2 ^ 32).toNat
    memUopIn := memUopIn
    memInpIn := memInpIn
    memWgtIn := memWgtIn
    memBiasIn := memBiasIn }

/-- One turn of the comparison. -/
def compareResult (conv : Conversion) (dramOut : ℤ → ℕ) (err : ℕ) (res : SimResult) : Option ℕ := do
  let refData ← conv.value 8 res.outputData
  return if dramOut res.outputAddr ≠ refData then err + 1 else err

/-- The comparison: the number of results that the memory does not hold. -/
def compareResults (conv : Conversion) (dramOut : ℤ → ℕ) (simResult : List SimResult) : Option ℕ :=
  simResult.foldlM (compareResult conv dramOut) 0

/-- The testbench on a fragment and its results: what the ports showed, and `err`.  The model is
given by the output memory that it ends with. -/
def vtaTestbench (conv : Conversion) (model : List SimPorts → ℤ → ℕ) (st : GenState) :
    Option (List SimPorts × ℕ) := do
  let ports ← st.cmdV.mapM (drivePorts conv)
  let err ← compareResults conv (model ports) st.resultV
  return (ports, err)

/-- A character that separates words for the shell. -/
def isBlank (c : Char) : Bool := c = ' ' || c = '\t' || c = '\n'

/-- The first argument in `./testbench.out $line`, if there is one. -/
def firstWord (line : Str) : Option Str :=
  let word := (line.dropWhile isBlank).takeWhile (!isBlank ·)
  if word = [] then none else some word

/-- One turn of the loop in `run_all.sh`: none where the testbench stops early, as it does when it
finds no fragment. -/
def runLine (conv : Conversion) (model : List SimPorts → ℤ → ℕ) (written : Str → Option GenState)
    (line : Str) : Option (List SimPorts × ℕ) := do
  let fileName ← firstWord line
  let st ← written fileName
  vtaTestbench conv model st

/-- `run_all.sh`: what comes of each line of `file_list`. -/
def runAllSh (conv : Conversion) (model : List SimPorts → ℤ → ℕ) (log : List Str) :
    Option (List (Option (List SimPorts × ℕ))) := do
  let out ← extractSimLog log
  let written ← inputGenFiles out
  return out.fileList.map (runLine conv model written)

/-! ## One run -/

/-- A sign that lies outside the port is not seen. -/
lemma signedValue_emod {w : ℕ} {ds : Str} (h : w ≤ 4 * ds.length) :
    (signedValue ds % 2 ^ w).toNat = ofDigits 16 ds % 2 ^ w := by
  have hbase : (16 : ℤ) ^ ds.length = 2 ^ (4 * ds.length) := by
    rw [pow_mul]
    norm_num
  have hdvd : (2 : ℤ) ^ w ∣ 16 ^ ds.length := by
    rw [hbase]
    exact pow_dvd_pow 2 h
  have hmod : signedValue ds % 2 ^ w = (ofDigits 16 ds : ℤ) % 2 ^ w := by
    rw [signedValue]
    split_ifs
    · rfl
    · rw [Int.sub_emod, Int.emod_eq_zero_of_dvd hdvd, sub_zero, Int.emod_emod]
  rw [hmod]
  have hcast : (ofDigits 16 ds : ℤ) % 2 ^ w = ((ofDigits 16 ds % 2 ^ w : ℕ) : ℤ) := by
    push_cast
    rfl
  rw [hcast, Int.toNat_natCast]

/-- A number that fills the port is taken modulo its width. -/
lemma Conversion.value_of_le (conv : Conversion) {w : ℕ} {ds : Str} (hne : ds ≠ [])
    (hds : ∀ c ∈ ds, isDigit 16 c = true) (h : w ≤ 4 * ds.length) :
    conv.value w (hexText ds) = some (ofDigits 16 ds % 2 ^ w) := by
  rw [conv.hex w hne hds, signedValue_emod h]

/-- The memory a record goes to. -/
def RecordKind.memMode : RecordKind → ℕ
  | .gemmInput => 1
  | .gemmWeight => 2
  | .aluBias | .gemmBias => 3
  | .uop => 4
  | .instr | .aluOut | .gemmOutput => 0

namespace IlaRecord

variable (r : IlaRecord)

/-- What a port of `w` bits takes from the value. -/
def onPort (w : ℕ) : ℕ := (signedValue r.valueText % 2 ^ w).toNat

/-- What the ports show of an input record. -/
def simPorts : SimPorts :=
  if r.kind = .instr then ⟨r.value, 0, 0, 0, 0, 0, 0⟩
  else ⟨0, r.kind.memMode, r.index, r.onPort 32, r.onPort 8, r.onPort 8, r.onPort 32⟩

/-- The ports put the record before the model: its memory, its index and, on the port of its memory,
its value. -/
def PresentedBy (p : SimPorts) : Prop :=
  match r.kind with
  | .instr => p.memMode = 0 ∧ p.instrIn = r.value
  | .gemmInput => p.memMode = 1 ∧ p.memAddr = r.index ∧ p.memInpIn = r.value
  | .gemmWeight => p.memMode = 2 ∧ p.memAddr = r.index ∧ p.memWgtIn = r.value
  | .aluBias | .gemmBias => p.memMode = 3 ∧ p.memAddr = r.index ∧ p.memBiasIn = r.value
  | .uop => p.memMode = 4 ∧ p.memAddr = r.index ∧ p.memUopIn = r.value % 2 ^ 32
  | .aluOut | .gemmOutput => False

lemma valueText_ne_nil : r.valueText ≠ [] := by
  rw [← List.length_pos_iff, r.length_valueText]
  exact r.kind.digits_pos

/-- A port that the digits fill takes the value modulo its width. -/
lemma onPort_of_le {w : ℕ} (h : w ≤ 4 * r.kind.digits) : r.onPort w = r.value % 2 ^ w := by
  rw [← r.length_valueText] at h
  rw [onPort, signedValue_emod h, r.ofDigits_valueText]

/-- A port as wide as the printed variable takes the value. -/
lemma onPort_of_bits {w : ℕ} (h : w ≤ 4 * r.kind.digits) (hbits : r.kind.bits = w) :
    r.onPort w = r.value := by
  have hlt := r.value_lt
  rw [hbits] at hlt
  rw [r.onPort_of_le h, Nat.mod_eq_of_lt hlt]

lemma presentedBy_simPorts (hinput : r.kind.isOutput = false) : r.PresentedBy r.simPorts := by
  rw [PresentedBy, simPorts]
  cases h : r.kind with
  | instr => exact ⟨rfl, rfl⟩
  | gemmInput => exact ⟨rfl, rfl, r.onPort_of_bits (by rw [h]; decide) (by rw [h]; rfl)⟩
  | gemmWeight => exact ⟨rfl, rfl, r.onPort_of_bits (by rw [h]; decide) (by rw [h]; rfl)⟩
  | aluBias | gemmBias => exact ⟨rfl, rfl, r.onPort_of_bits (by rw [h]; decide) (by rw [h]; rfl)⟩
  | uop => exact ⟨rfl, rfl, r.onPort_of_le (by rw [h]; decide)⟩
  | aluOut | gemmOutput =>
      rw [h] at hinput
      cases hinput

/-- The command of a record that is written to a memory. -/
lemma command_eq (n : ℕ) (hinstr : r.kind ≠ .instr) (hinput : r.kind.isOutput = false) :
    r.command n = memCommand n r.kind.memMode r.index r.valueText := by
  rw [command]
  cases h : r.kind with
  | instr => exact absurd h hinstr
  | gemmInput | gemmWeight | aluBias | gemmBias | uop => rfl
  | aluOut | gemmOutput =>
      rw [h] at hinput
      cases hinput

variable (conv : Conversion)

/-- The driver on an instruction. -/
lemma drivePorts_instr (n : ℕ) (h : r.kind = .instr) :
    drivePorts conv (instrCommand n r.valueText) = some ⟨r.value, 0, 0, 0, 0, 0, 0⟩ := by
  have hlen := r.length_valueText
  have hlt := r.value_lt
  rw [h] at hlen hlt
  have hword : conv.value 128 (hexText ('0' :: r.valueText)) = some r.value := by
    rw [conv.value_of_le (List.cons_ne_nil _ _), ofDigits_cons_zero, r.ofDigits_valueText]
    · exact congrArg some (Nat.mod_eq_of_lt hlt)
    · exact List.forall_mem_cons.mpr ⟨by decide, r.isDigit_of_mem_valueText⟩
    · rw [List.length_cons, hlen]
      decide
  simp only [drivePorts, instrCommand, hword, conv.zero, Option.bind_eq_bind, Option.bind_some]
  rfl

/-- The driver on a word for a memory. -/
lemma drivePorts_mem (n : ℕ) :
    drivePorts conv (memCommand n r.kind.memMode r.index r.valueText) =
      some ⟨0, r.kind.memMode, r.index, r.onPort 32, r.onPort 8, r.onPort 8, r.onPort 32⟩ := by
  have hzero : conv.value 128 "0x00".toList = some 0 :=
    conv.hex 128 (List.cons_ne_nil '0' ['0']) (List.all_eq_true.mp rfl)
  have hport : ∀ w, conv.value w (hexText r.valueText) = some (r.onPort w) := by
    intro w
    exact conv.hex w r.valueText_ne_nil r.isDigit_of_mem_valueText
  have hmode : r.kind.memMode % 2 ^ 3 = r.kind.memMode := by
    cases r.kind <;> rfl
  have haddr : ((r.index : ℤ) % 2 ^ 32).toNat = r.index := by
    have hlt := r.index_lt
    omega
  simp only [drivePorts, memCommand, hzero, hport, hmode, haddr, Option.bind_eq_bind,
    Option.bind_some]
  rfl

/-- **One turn of the driver** on the command of an input record. -/
theorem drivePorts_logCommand (n : ℕ) (hinput : r.kind.isOutput = false) :
    drivePorts conv (r.logCommand n) = some r.simPorts := by
  by_cases h : r.kind = .instr
  · rw [logCommand, if_pos h, r.drivePorts_instr conv n h, simPorts, if_pos h]
  · rw [logCommand, if_neg h, r.command_eq n h hinput, r.drivePorts_mem conv n, simPorts, if_neg h]

end IlaRecord

/-- The driver on the fragment of a run. -/
lemma mapM_drivePorts (conv : Conversion) {inputs : List IlaRecord}
    (h : ∀ r ∈ inputs, r.kind.isOutput = false) (n : ℕ) :
    (logCommands n inputs).mapM (drivePorts conv) = some (inputs.map IlaRecord.simPorts) := by
  induction inputs generalizing n with
  | nil => rfl
  | cons r inputs ih =>
      have hr := r.drivePorts_logCommand conv n (h r List.mem_cons_self)
      have hrest := ih (fun s hs => h s (List.mem_cons_of_mem r hs)) (n + 1)
      rw [logCommands] at hrest ⊢
      rw [List.zipIdx_cons, List.map_cons, List.mapM_cons, hr, hrest]
      rfl

/-- One turn of the comparison on an output record. -/
lemma compareResult_result (conv : Conversion) (dramOut : ℤ → ℕ) (err : ℕ) {o : IlaRecord}
    (h : o.kind.isOutput = true) : compareResult conv dramOut err o.result =
      some (if dramOut o.index ≠ o.value then err + 1 else err) := by
  have hlt := o.value_lt
  have hlen := o.length_valueText
  have hshape : o.kind.bits = 8 ∧ o.kind.digits = 8 := by
    cases hk : o.kind with
    | aluOut | gemmOutput => exact ⟨rfl, rfl⟩
    | instr | uop | aluBias | gemmInput | gemmWeight | gemmBias =>
        rw [hk] at h
        cases h
  rw [hshape.1] at hlt
  have hvalue : conv.value 8 (hexText o.valueText) = some o.value := by
    rw [conv.value_of_le o.valueText_ne_nil o.isDigit_of_mem_valueText (by omega),
      o.ofDigits_valueText, Nat.mod_eq_of_lt hlt]
  rw [compareResult, IlaRecord.result, hvalue]
  rfl

/-- The comparison counts the outputs that the memory does not hold. -/
lemma foldlM_compareResult (conv : Conversion) (dramOut : ℤ → ℕ) {outputs : List IlaRecord}
    (h : ∀ o ∈ outputs, o.kind.isOutput = true) (err : ℕ) :
    (outputs.map IlaRecord.result).foldlM (compareResult conv dramOut) err =
      some (err + outputs.countP fun o => decide (dramOut o.index ≠ o.value)) := by
  induction outputs generalizing err with
  | nil => rfl
  | cons o outputs ih =>
      have hrest := ih fun s hs => h s (List.mem_cons_of_mem o hs)
      have hturn := compareResult_result conv dramOut err (h o List.mem_cons_self)
      rw [List.map_cons, foldlM_cons_some hturn, hrest, List.countP_cons]
      by_cases heq : dramOut o.index = o.value
      · simp [heq]
      · simp [heq]
        omega

namespace LoggedRun

variable (r : LoggedRun)

/-- The shell hands on the whole name. -/
lemma firstWord_name : firstWord r.name = some r.name := by
  have hplain : ∀ c ∈ r.name, isBlank c = false := by
    intro c hc
    have hno := r.name_plain c hc
    simp only [List.mem_cons, not_or] at hno
    simp [isBlank, hno]
  have hdrop : r.name.dropWhile isBlank = r.name := by
    rw [List.dropWhile_eq_self_iff]
    intro hpos
    simp [hplain _ (List.getElem_mem hpos)]
  have htake : r.name.takeWhile (!isBlank ·) = r.name := by
    rw [List.takeWhile_eq_self_iff]
    intro c hc
    simp [hplain c hc]
  rw [firstWord, hdrop, htake, if_neg r.name_ne_nil]

/-- What the tools make of the lines of a run. -/
lemma inputGen_payloads : ∃ n,
    inputGen r.payloads = some ⟨logCommands 0 r.inputs, resultsOf r.records, n⟩ :=
  foldlM_logPayloads r.records ⟨[], [], 0⟩

/-- What the testbench makes of it. -/
lemma vtaTestbench_payloads (conv : Conversion) (model : List SimPorts → ℤ → ℕ) :
    (inputGen r.payloads).bind (vtaTestbench conv model) =
      some (r.inputs.map IlaRecord.simPorts, r.outputs.countP fun o =>
        decide (model (r.inputs.map IlaRecord.simPorts) o.index ≠ o.value)) := by
  have hinputs : ∀ i ∈ r.inputs, i.kind.isOutput = false := by
    intro i hi
    simpa using (List.mem_filter.mp hi).2
  have houtputs : ∀ o ∈ r.outputs, o.kind.isOutput = true := by
    intro o ho
    exact (List.mem_filter.mp ho).2
  obtain ⟨n, hgen⟩ := r.inputGen_payloads
  have hports := mapM_drivePorts conv hinputs 0
  have herr := foldlM_compareResult conv (model (r.inputs.map IlaRecord.simPorts)) houtputs 0
  rw [Nat.zero_add] at herr
  rw [hgen, Option.bind_some, vtaTestbench, hports, Option.bind_eq_bind, Option.bind_some]
  show (compareResults conv _ (r.outputs.map IlaRecord.result)).bind _ = _
  rw [compareResults, herr]
  rfl

end LoggedRun

/-! ## The whole log -/

/-- A run has been simulated: its input records were put before the model, in their order, and the
errors are the outputs that the model does not end with. -/
structure LoggedRun.Simulated (r : LoggedRun) (model : List SimPorts → ℤ → ℕ)
    (ports : List SimPorts) (err : ℕ) : Prop where
  presented : List.Forall₂ (fun p i => i.PresentedBy p) ports r.inputs
  errors : err = r.outputs.countP fun o => decide (model ports o.index ≠ o.value)
  passes : err = 0 ↔ ∀ o ∈ r.outputs, model ports o.index = o.value

/-- What comes of the lines of a log: the input records of each run on the ports, and the number of
outputs that the model does not end with. -/
lemma runAllSh_logOf (conv : Conversion) (model : List SimPorts → ℤ → ℕ) {runs : List LoggedRun}
    (trailer : List OtherLine) (hdistinct : (runs.map LoggedRun.name).Nodup) :
    runAllSh conv model (LoggedRun.logOf runs trailer) = some (runs.map fun r =>
      some (r.inputs.map IlaRecord.simPorts, r.outputs.countP fun o =>
        decide (model (r.inputs.map IlaRecord.simPorts) o.index ≠ o.value))) := by
  set out : ExtractState := ⟨runs.map LoggedRun.name,
    History.writeAll LoggedRun.name (fun r => some r.payloads) (fun _ => none) runs, none⟩
  have hfile : ∀ r ∈ runs, out.files r.name = some r.payloads := by
    intro r hr
    exact History.writeAll_of_mem _ hdistinct hr
  have hgen : ∀ name ∈ out.fileList, ∃ st, inputGen ((out.files name).getD []) = some st := by
    intro name hname
    obtain ⟨r, hr, rfl⟩ := List.mem_map.mp hname
    obtain ⟨n, hst⟩ := r.inputGen_payloads
    rw [hfile r hr, Option.getD_some]
    exact ⟨_, hst⟩
  obtain ⟨written, hwritten, -, hmem⟩ := inputGenFiles_spec hgen
  have hrun : ∀ r ∈ runs, written r.name = inputGen r.payloads := by
    intro r hr
    rw [hmem hdistinct _ (List.mem_map_of_mem hr), hfile r hr, Option.getD_some]
  have hline : ∀ r ∈ runs, runLine conv model written r.name =
      some (r.inputs.map IlaRecord.simPorts, r.outputs.countP fun o =>
        decide (model (r.inputs.map IlaRecord.simPorts) o.index ≠ o.value)) := by
    intro r hr
    rw [runLine, r.firstWord_name, Option.bind_eq_bind, Option.bind_some, hrun r hr]
    exact r.vtaTestbench_payloads conv model
  rw [runAllSh, extractSimLog_logged, Option.bind_eq_bind, Option.bind_some, hwritten]
  show some ((runs.map LoggedRun.name).map (runLine conv model written)) = _
  rw [List.map_map]
  exact congrArg some (List.map_congr_left hline)

/-- **The verdict of the co-simulation**: every run of a log is simulated under its own name, with all
its records, and passes exactly when the model ends with the outputs that were printed. -/
theorem cosim_verdict (conv : Conversion) (model : List SimPorts → ℤ → ℕ) (runs : List LoggedRun)
    (trailer : List OtherLine) (hdistinct : (runs.map LoggedRun.name).Nodup) :
    ∃ outcomes, runAllSh conv model (LoggedRun.logOf runs trailer) = some outcomes ∧
      List.Forall₂ (fun r outcome => ∃ ports err, outcome = some (ports, err) ∧
        r.Simulated model ports err) runs outcomes := by
  refine ⟨_, runAllSh_logOf conv model trailer hdistinct, ?_⟩
  rw [List.forall₂_map_right_iff, List.forall₂_same]
  intro r hr
  refine ⟨_, _, rfl, ?_⟩
  constructor
  case presented =>
    rw [List.forall₂_map_left_iff, List.forall₂_same]
    intro i hi
    exact i.presentedBy_simPorts (by simpa using (List.mem_filter.mp hi).2)
  case errors => rfl
  case passes => simp [List.countP_eq_zero]

/-- A conversion that reads signed digits. -/
def signedConversion : Conversion where
  value w s := match s with
    | ['0'] => some 0
    | '0' :: 'x' :: ds => if ds ≠ [] ∧ ds.all (isDigit 16) then
        some (signedValue ds % 2 ^ w).toNat else none
    | _ => none
  hex w ds hne hds := by
    show (if ds ≠ [] ∧ ds.all (isDigit 16) then some (signedValue ds % 2 ^ w).toNat else none) = _
    rw [if_pos ⟨hne, List.all_eq_true.mpr hds⟩]
  zero _ := rfl

lemma gemm_plain : ∀ c ∈ ['G', 'E', 'M', 'M'], c ∉ [' ', '\t', '\n', '*', '?', '[', '/'] := by simp

/-- A run with an instruction, a weight and an output. -/
def smallRun : LoggedRun where
  name := ['G', 'E', 'M', 'M']
  before := []
  body := [.inr ⟨.gemmWeight, 5, 0xe9, by decide, by decide⟩,
    .inr ⟨.instr, 1, 0x13, by decide, by decide⟩,
    .inr ⟨.gemmOutput, 2, 0x80, by decide, by decide⟩]
  endLine := "INFO - Blocked GEMM test successful!".toList
  name_ne_nil := List.cons_ne_nil _ _
  name_plain := gemm_plain
  success := by decide

/-- A model that ends with the output in place. -/
theorem cosim_verdict_small : ∃ outcomes,
    runAllSh signedConversion (fun _ a => if a = 2 then 0x80 else 0)
      (LoggedRun.logOf [smallRun] []) = some outcomes ∧
    List.Forall₂ (fun r outcome => ∃ ports err, outcome = some (ports, err) ∧
      r.Simulated (fun _ a => if a = 2 then 0x80 else 0) ports err) [smallRun] outcomes :=
  cosim_verdict signedConversion (fun _ a => if a = 2 then 0x80 else 0) [smallRun] [] (by simp)

/-! ## The log of the test library -/

/-- What holds of the files that are made of the library's runs: their names are those of runs, their
lines those of records. -/
structure ExtractState.OfLibrary (st : ExtractState) : Prop where
  names : ∀ f ∈ st.fileList, ∃ p : TestParams, f = p.name
  lines : ∀ f lines, st.files f = some lines →
    ∃ records : List IlaRecord, lines = records.map IlaRecord.payload

/-- A run keeps it, whichever loop it meets. -/
lemma ExtractState.OfLibrary.runStep {st : ExtractState} (h : st.OfLibrary) (r : TestRun) :
    (runStep st r).OfLibrary := by
  rw [ThreeLaSim.runStep]
  cases hcur : st.current with
  | none =>
      constructor
      · intro f hf
        rcases List.mem_append.mp hf with hf | hf
        · exact h.names f hf
        · exact ⟨r.params, List.mem_singleton.mp hf⟩
      · intro f lines hlines
        by_cases hf : f = r.params.name
        · rw [hf] at hlines
          simp only [Function.update_self, Option.some_inj] at hlines
          exact ⟨r.records, hlines.symm⟩
        · simp only [Function.update_of_ne hf] at hlines
          exact h.lines f lines hlines
  | some g =>
      constructor
      · exact h.names
      · intro f lines hlines
        by_cases hf : f = g
        · rw [hf] at hlines
          simp only [Function.update_self, Option.map_eq_some_iff] at hlines
          obtain ⟨old, hold, rfl⟩ := hlines
          obtain ⟨records, rfl⟩ := h.lines g old hold
          exact ⟨records ++ r.records, by rw [List.map_append]; rfl⟩
        · simp only [Function.update_of_ne hf] at hlines
          exact h.lines f lines hlines

/-- A sequence of runs keeps it, and drops no name. -/
lemma ofLibrary_foldl (runs : List TestRun) {st : ExtractState} (h : st.OfLibrary) :
    (runs.foldl runStep st).OfLibrary ∧
      st.fileList.length ≤ (runs.foldl runStep st).fileList.length := by
  induction runs generalizing st with
  | nil => exact ⟨h, le_rfl⟩
  | cons r runs ih =>
      obtain ⟨hrest, hlen⟩ := ih (h.runStep r)
      have hstep : st.fileList.length ≤ (runStep st r).fileList.length := by
        rw [ThreeLaSim.runStep]
        split
        · simp
        · exact le_rfl
      exact ⟨hrest, hstep.trans hlen⟩

/-- The name of a run has a blank in it. -/
lemma blank_mem_name (p : TestParams) : ' ' ∈ p.name := by
  cases p with
  | alu =>
      unfold TestParams.name aluName
      exact List.mem_append_left _ (by decide)
  | blocked =>
      unfold TestParams.name blockedName
      exact List.mem_append_left _ (by decide)
  | gemm =>
      unfold TestParams.name gemmName
      exact List.mem_append_left _ (by decide)

/-- A word has none. -/
lemma blank_not_mem_firstWord {line w : Str} (h : firstWord line = some w) : ' ' ∉ w := by
  rw [firstWord] at h
  split_ifs at h
  obtain rfl := Option.some.inj h
  intro hmem
  have hno := List.mem_takeWhile_imp hmem
  exact absurd hno (by decide)

/-- **Nothing is simulated on the log of the test library**: on every sequence of its runs the tools
write their files, and every call of the testbench is given the first word of a name, under which
there is no fragment. -/
theorem cosim_library (conv : Conversion) (model : List SimPorts → ℤ → ℕ) (runs : List TestRun)
    (trailer : List OtherLine) :
    ∃ outcomes, runAllSh conv model (logOf runs trailer) = some outcomes ∧
      (runs ≠ [] → outcomes ≠ []) ∧ ∀ outcome ∈ outcomes, outcome = none := by
  have hempty : (⟨[], fun _ => none, none⟩ : ExtractState).OfLibrary := ⟨by simp, by simp⟩
  set out := runs.foldl runStep ⟨[], fun _ => none, none⟩ with hout
  have hlib : out.OfLibrary := (ofLibrary_foldl runs hempty).1
  have hgen : ∀ name ∈ out.fileList, ∃ st, inputGen ((out.files name).getD []) = some st := by
    intro name _
    cases hfile : out.files name with
    | none => exact ⟨_, rfl⟩
    | some lines =>
        obtain ⟨records, rfl⟩ := hlib.lines name lines hfile
        obtain ⟨n, hst⟩ := foldlM_payloads records ⟨[], [], 0⟩
        exact ⟨_, hst⟩
  obtain ⟨written, hwritten, hnone, -⟩ := inputGenFiles_spec hgen
  refine ⟨out.fileList.map (runLine conv model written), ?_, ?_, ?_⟩
  · rw [runAllSh, extractSimLog_eq, Option.bind_eq_bind, Option.bind_some, ← hout, hwritten]
    rfl
  · intro hne
    cases runs with
    | nil => exact absurd rfl hne
    | cons r runs =>
        have hlen := (ofLibrary_foldl runs (hempty.runStep r)).2
        rw [← List.length_pos_iff, List.length_map]
        exact Nat.lt_of_lt_of_le Nat.zero_lt_one hlen
  · intro outcome houtcome
    obtain ⟨line, hline, rfl⟩ := List.mem_map.mp houtcome
    rw [runLine]
    cases hword : firstWord line with
    | none => rfl
    | some w =>
        have hnot : w ∉ out.fileList := by
          intro hw
          obtain ⟨p, rfl⟩ := hlib.names w hw
          exact blank_not_mem_firstWord hword (blank_mem_name p)
        rw [Option.bind_eq_bind, Option.bind_some, hnone w hnot]
        rfl

end ThreeLaSim
