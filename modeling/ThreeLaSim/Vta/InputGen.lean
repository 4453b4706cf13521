import ThreeLaSim.Vta.ExtractSimLog

/-!
# `input_gen`: from stripped log lines to simulation commands

The tool goes through the lines that `extract_sim_log` kept, tells their kind by the first of six
keywords that occurs, and cuts index and value out of the line by searching for brackets, dots and
colons.

* `GenState.add` — the command or result the tool makes of a record.
* **`parseLine_payload`** — it makes exactly that of the record's line, for each of the eight
  formats.
* **`undoes_iff`** — printing, stripping and parsing undo each other exactly when the log has no
  instruction: the instruction line has no colon behind the bracket, so its word is cut out of
  the wrong place.
-/

namespace ThreeLaSim

open CText

/-! ## The tool -/

/-- An entry of the program fragment. -/
structure Command where
  instrNo : ℕ
  instrIn : Str
  memMode : ℕ
  memAddr : ℤ
  memUopIn : Str
  memInpIn : Str
  memWgtIn : Str
  memBiasIn : Str
  deriving DecidableEq

/-- An entry of the expected result. -/
structure SimResult where
  outputAddr : ℤ
  outputData : Str
  deriving DecidableEq

/-- `cmd_v`, `result_v` and `instr_cntr`. -/
structure GenState where
  cmdV : List Command
  resultV : List SimResult
  instrCntr : ℕ
  deriving DecidableEq

/-- `cmd_v.push_back(cmd); instr_cntr++`. -/
def GenState.push (st : GenState) (cmd : Command) : GenState :=
  { st with cmdV := st.cmdV ++ [cmd], instrCntr := st.instrCntr + 1 }

/-- `data_rd.substr(data_rd.find("[")+1, data_rd.find("]") - data_rd.find("[") - 1)`. -/
def bracketField (dataRd : Str) : Option Str :=
  substr dataRd (posAdd (find ['['] dataRd) 1) (posBetween (find [']'] dataRd) (find ['['] dataRd))

/-- `data_rd.substr(data_rd.find(".")+1, data_rd.find("info")-data_rd.find(".")-1)`. -/
def dotField (dataRd : Str) : Option Str :=
  substr dataRd (posAdd (find ['.'] dataRd) 1)
    (posBetween (find "info".toList dataRd) (find ['.'] dataRd))

/-- `data_rd.substr(data_rd.find(":")+2, len)`. -/
def dataField (dataRd : Str) (len : ℕ) : Option Str := substr dataRd (posAdd (find [':'] dataRd) 2) len

/-- A command that writes a memory: the data goes to all four ports. -/
def memCommand (instrCntr mode : ℕ) (addr : ℤ) (data : Str) : Command where
  instrNo := instrCntr
  instrIn := "0x00".toList
  memMode := mode
  memAddr := addr
  memUopIn := hexText data
  memInpIn := hexText data
  memWgtIn := hexText data
  memBiasIn := hexText data

/-- A command that hands over an instruction word. -/
def instrCommand (instrCntr : ℕ) (ins : Str) : Command where
  instrNo := instrCntr
  instrIn := hexText ('0' :: ins)
  memMode := 0
  memAddr := 0
  memUopIn := "0".toList
  memInpIn := "0".toList
  memWgtIn := "0".toList
  memBiasIn := "0".toList

/-- The branches for input, weight and bias data. -/
def bufferLine (mode len : ℕ) (st : GenState) (dataRd : Str) : Option GenState := do
  let addrIn ← bracketField dataRd
  let data ← dataField dataRd len
  let addr ← stoi 10 addrIn
  return st.push (memCommand st.instrCntr mode addr data)

/-- The branch for micro-ops. -/
def uopLine (st : GenState) (dataRd : Str) : Option GenState := do
  let addrIn ← dotField dataRd
  let data ← dataField dataRd 16
  let addr ← stoi 10 addrIn
  return st.push (memCommand st.instrCntr 4 addr data)

/-- The branch for instructions. -/
def instrLine (st : GenState) (dataRd : Str) : Option GenState := do
  let ins ← dataField dataRd 32
  return st.push (instrCommand st.instrCntr ins)

/-- The branch for results. -/
def outLine (st : GenState) (dataRd : Str) : Option GenState := do
  let addr ← bracketField dataRd
  let data ← dataField dataRd 8
  let outputAddr ← stoi 10 addr
  return { st with resultV := st.resultV ++ [⟨outputAddr, hexText data⟩] }

/-- One turn of the loop; none where `substr` or `stoi` throws. -/
def parseLine (st : GenState) (dataRd : Str) : Option GenState :=
  if contains "input_buffer".toList dataRd then bufferLine 1 2 st dataRd
  else if contains "weight_buffer".toList dataRd then bufferLine 2 2 st dataRd
  else if contains "bias_buf".toList dataRd then bufferLine 3 8 st dataRd
  else if contains "uop".toList dataRd then uopLine st dataRd
  else if contains "instr".toList dataRd then instrLine st dataRd
  else if contains "out".toList dataRd then outLine st dataRd
  else some st

/-- The tool on one log file. -/
def inputGen (lines : List Str) : Option GenState := lines.foldlM parseLine ⟨[], [], 0⟩

/-! ## What it makes of a record -/

/-- The command made of an input record; of an instruction, the first 32 characters behind the
blank. -/
def IlaRecord.command (r : IlaRecord) (instrCntr : ℕ) : Command :=
  match r.kind with
  | .gemmInput => memCommand instrCntr 1 r.index r.valueText
  | .gemmWeight => memCommand instrCntr 2 r.index r.valueText
  | .aluBias | .gemmBias => memCommand instrCntr 3 r.index r.valueText
  | .uop => memCommand instrCntr 4 r.index r.valueText
  | .instr | .aluOut | .gemmOutput => instrCommand instrCntr ((r.payload.drop 1).take 32)

/-- The result made of an output record. -/
def IlaRecord.result (r : IlaRecord) : SimResult := ⟨r.index, hexText r.valueText⟩

/-- The step of the tool on a record. -/
def GenState.add (st : GenState) (r : IlaRecord) : GenState :=
  if r.kind.isOutput then { st with resultV := st.resultV ++ [r.result] }
  else st.push (r.command st.instrCntr)

namespace IlaRecord

variable (r : IlaRecord)

/-! ### Cutting fields out of a line -/

/-- A line with brackets in pieces. -/
lemma payload_bracket (h : r.kind.mid = "]: ".toList) : ∃ pre : Str,
    r.payload = pre ++ '[' :: (dec r.index ++ ']' :: ':' :: ' ' :: r.valueText) ∧
      '[' ∉ pre ∧ ']' ∉ pre ∧ ':' ∉ pre := by
  refine ⟨(r.kind.lead.drop 11).dropLast, ?_, ?_⟩
  · have hlead : r.kind.lead.drop 11 = (r.kind.lead.drop 11).dropLast ++ ['['] := by
      cases hk : r.kind <;> rw [hk] at h <;> first | decide | exact absurd h (by decide)
    have hmid : "]: ".toList = [']', ':', ' '] := by decide
    unfold payload
    rw [hlead, h, hmid, List.append_assoc]
    simp
  · cases r.kind <;> decide

lemma bracketField_payload (h : r.kind.mid = "]: ".toList) :
    bracketField r.payload = some (dec r.index) := by
  obtain ⟨pre, hpay, hopen, hclose, -⟩ := r.payload_bracket h
  have hfindOpen : find ['['] r.payload = some pre.length := by
    rw [hpay]
    exact find_char hopen _
  have hfindClose : find [']'] r.payload = some (pre.length + 1 + (dec r.index).length) := by
    have hno : ']' ∉ pre ++ '[' :: dec r.index := by
      simp only [List.mem_append, List.mem_cons, not_or]
      exact ⟨hclose, by decide, not_mem_dec (by decide) _⟩
    have hpay' : r.payload =
        (pre ++ '[' :: dec r.index) ++ ']' :: ':' :: ' ' :: r.valueText := by
      rw [hpay]
      simp
    rw [hpay', find_char hno]
    simp
    omega
  unfold bracketField
  rw [hfindOpen, hfindClose, posBetween_some (by omega)]
  have hcut : r.payload =
      (pre ++ ['[']) ++ (dec r.index ++ ']' :: ':' :: ' ' :: r.valueText) := by
    rw [hpay]
    simp
  rw [hcut]
  exact substr_append (by simp [posAdd]) (by omega)

/-- The value behind the first colon. -/
lemma dataField_append {pre s : Str} {len : ℕ} (hpre : ':' ∉ pre) (hlen : len = s.length) :
    dataField (pre ++ ':' :: ' ' :: s) len = some s := by
  have hcut : pre ++ ':' :: ' ' :: s = (pre ++ [':', ' ']) ++ (s ++ []) := by simp
  unfold dataField
  rw [find_char hpre, hcut]
  exact substr_append (by simp [posAdd]) hlen

lemma dataField_payload (h : r.kind.mid = "]: ".toList) :
    dataField r.payload r.kind.digits = some r.valueText := by
  obtain ⟨pre, hpay, -, -, hcolon⟩ := r.payload_bracket h
  have hno : ':' ∉ pre ++ '[' :: (dec r.index ++ [']']) := by
    simp only [List.mem_append, List.mem_cons, not_or]
    exact ⟨hcolon, by decide, not_mem_dec (by decide) _, by decide⟩
  have hpay' : r.payload =
      (pre ++ '[' :: (dec r.index ++ [']'])) ++ ':' :: ' ' :: r.valueText := by
    rw [hpay]
    simp
  rw [hpay']
  exact dataField_append hno r.length_valueText.symm

lemma stoi_index : stoi 10 (dec r.index) = some (r.index : ℤ) := by
  have h := @stoi_toDigits r.index r.index_lt [] (by simp)
  rwa [List.append_nil] at h

/-- A micro-op line in pieces. -/
lemma payload_uop (h : r.kind = .uop) : r.payload =
    " uop No".toList ++ '.' :: (dec r.index ++ (" \t ".toList ++ ("info: ".toList ++ r.valueText))) := by
  have hlead : RecordKind.uop.lead.drop 11 = " uop No".toList ++ ['.'] := by decide
  have hmid : RecordKind.uop.mid = " \t ".toList ++ "info: ".toList := by decide
  unfold payload
  rw [h, hlead, hmid]
  simp only [List.append_assoc, List.singleton_append]

lemma dotField_payload (h : r.kind = .uop) :
    dotField r.payload = some (dec r.index ++ " \t ".toList) := by
  have hpay := r.payload_uop h
  have hfindDot : find ['.'] r.payload = some 7 := by
    rw [hpay]
    exact find_char (by decide) _
  have hcut : r.payload = (" uop No".toList ++ ['.']) ++ ((dec r.index ++ " \t ".toList) ++
      ("info: ".toList ++ r.valueText)) := by
    rw [hpay]
    simp only [List.append_assoc, List.singleton_append]
  have hfindInfo : find "info".toList r.payload = some (8 + (dec r.index ++ " \t ".toList).length) := by
    have hno : 'i' ∉ (" uop No".toList ++ ['.']) ++ (dec r.index ++ " \t ".toList) := by
      simp only [List.mem_append, not_or]
      exact ⟨⟨by decide, by decide⟩, not_mem_dec (by decide) _, by decide⟩
    have hpfx : 'i' :: "nfo".toList <+: "info: ".toList ++ r.valueText :=
      ⟨": ".toList ++ r.valueText, rfl⟩
    have hfind := find_append hpfx _ hno
    rw [List.append_assoc, ← hcut] at hfind
    have hneedle : "info".toList = 'i' :: "nfo".toList := by decide
    rw [hneedle, hfind, List.length_append]
    rfl
  unfold dotField
  rw [hfindDot, hfindInfo, posBetween_some (by omega), hcut]
  exact substr_append rfl (by omega)

lemma dataField_uop (h : r.kind = .uop) : dataField r.payload 16 = some r.valueText := by
  have hlen : 16 = r.valueText.length := by rw [length_valueText, h]; rfl
  have hno : ':' ∉ " uop No".toList ++ '.' :: (dec r.index ++ (" \t ".toList ++ "info".toList)) := by
    simp only [List.mem_append, List.mem_cons, not_or]
    exact ⟨by decide, by decide, not_mem_dec (by decide) _, by decide, by decide⟩
  have hcut : r.payload = (" uop No".toList ++ '.' :: (dec r.index ++ (" \t ".toList ++
      "info".toList))) ++ ':' :: ' ' :: r.valueText := by
    have hinfo : "info: ".toList = "info".toList ++ [':', ' '] := by decide
    rw [r.payload_uop h, hinfo]
    simp only [List.append_assoc, List.cons_append, List.nil_append]
  rw [hcut]
  exact dataField_append hno hlen

lemma stoi_index_blank : stoi 10 (dec r.index ++ " \t ".toList) = some (r.index : ℤ) := by
  refine stoi_toDigits r.index_lt ?_
  intro c hc
  have hblank : " \t ".toList.head? = some ' ' := by decide
  rw [hblank] at hc
  cases hc
  decide

/-- An instruction line has no colon: the search runs off, and the word is cut out behind the
first character of the line. -/
lemma dataField_instr (h : r.kind = .instr) :
    dataField r.payload 32 = some ((r.payload.drop 1).take 32) := by
  have hno : ':' ∉ r.payload := by
    refine r.not_mem_payload (by decide) ?_ ?_ <;> rw [h] <;> decide
  have hfind : find [':'] r.payload = none :=
    find_eq_none (not_infix_of_not_mem List.mem_cons_self hno)
  have hlen : 1 ≤ r.payload.length := by
    unfold payload
    rw [h, List.length_append]
    have : (RecordKind.instr.lead.drop 11).length = 10 := by decide
    omega
  unfold dataField substr
  rw [hfind, if_pos (show posAdd none 2 ≤ r.payload.length from hlen)]
  rfl

/-! ### Telling the kind -/

/-- A keyword with a letter that the format lacks does not occur. -/
lemma not_contains_payload {needle : Str} (c : Char) (h : c ∈ needle ∧ isDigit 16 c = false ∧
    c ∉ r.kind.lead.drop 11 ∧ c ∉ r.kind.mid) : ¬ contains needle r.payload = true := by
  obtain ⟨hc, hdigit, hlead, hmid⟩ := h
  rw [contains_iff]
  exact not_infix_of_not_mem hc (r.not_mem_payload hdigit hlead hmid)

/-- A keyword in the format occurs. -/
lemma contains_payload {needle : Str} (h : needle <:+: r.kind.lead.drop 11) :
    contains needle r.payload = true := by
  rw [contains_iff]
  exact List.infix_append_of_infix_left h

/-- The micro-op keyword is not in an output line, although its letters are. -/
lemma not_contains_uop (h : r.kind = .gemmOutput) : ¬ contains "uop".toList r.payload = true := by
  obtain ⟨pre, hpay, hopen, -, -⟩ := r.payload_bracket (by rw [h]; rfl)
  have hlead : r.kind.lead.drop 11 = "GEMM output_buf".toList ++ ['['] := by rw [h]; decide
  have hcut : r.payload = "GEMM output_buf".toList ++ '[' ::
      (dec r.index ++ (r.kind.mid ++ r.valueText)) := by
    unfold payload
    rw [hlead, List.append_assoc, List.singleton_append]
  have htail : 'u' ∉ dec r.index ++ (r.kind.mid ++ r.valueText) :=
    r.not_mem_numbers (by decide) (by rw [h]; decide)
  rw [contains_iff, hcut, infix_sep_iff (by decide), not_or]
  exact ⟨by decide, not_infix_of_not_mem (by decide) htail⟩

/-! ### One line -/

variable (st : GenState)

lemma bufferLine_payload (mode : ℕ) (h : r.kind.mid = "]: ".toList) {len : ℕ}
    (hlen : r.kind.digits = len) : bufferLine mode len st r.payload =
      some (st.push (memCommand st.instrCntr mode r.index r.valueText)) := by
  have hdata := r.dataField_payload h
  rw [hlen] at hdata
  simp [bufferLine, r.bracketField_payload h, hdata, r.stoi_index]

lemma outLine_payload (h : r.kind.mid = "]: ".toList) (hlen : r.kind.digits = 8) :
    outLine st r.payload = some { st with resultV := st.resultV ++ [r.result] } := by
  have hdata := r.dataField_payload h
  rw [hlen] at hdata
  simp [outLine, r.bracketField_payload h, hdata, r.stoi_index, result]

lemma uopLine_payload (h : r.kind = .uop) : uopLine st r.payload =
    some (st.push (memCommand st.instrCntr 4 r.index r.valueText)) := by
  unfold uopLine
  rw [r.dotField_payload h, r.dataField_uop h]
  simp only [Option.bind_eq_bind, Option.bind_some, stoi_index_blank]
  rfl

lemma instrLine_payload (h : r.kind = .instr) : instrLine st r.payload =
    some (st.push (instrCommand st.instrCntr ((r.payload.drop 1).take 32))) := by
  simp [instrLine, r.dataField_instr h]

lemma add_of_input {cmd : Command} (hkind : r.kind.isOutput = false)
    (hcmd : r.command st.instrCntr = cmd) : st.add r = st.push cmd := by
  rw [GenState.add, hkind, hcmd]
  rfl

lemma add_of_output (hkind : r.kind.isOutput = true) :
    st.add r = { st with resultV := st.resultV ++ [r.result] } := by
  rw [GenState.add, if_pos hkind]

/-- **One turn of the loop on the line of a record**, for each of the formats. -/
theorem parseLine_payload : parseLine st r.payload = some (st.add r) := by
  have hcmd : ∀ k, r.kind = k → r.command st.instrCntr = match k with
      | .gemmInput => memCommand st.instrCntr 1 r.index r.valueText
      | .gemmWeight => memCommand st.instrCntr 2 r.index r.valueText
      | .aluBias | .gemmBias => memCommand st.instrCntr 3 r.index r.valueText
      | .uop => memCommand st.instrCntr 4 r.index r.valueText
      | .instr | .aluOut | .gemmOutput =>
          instrCommand st.instrCntr ((r.payload.drop 1).take 32) := by
    intro k hk
    rw [← hk]
    rfl
  have hno := @not_contains_payload r
  have hyes := @contains_payload r
  unfold parseLine
  cases h : r.kind with
  | gemmInput =>
      rw [h] at hno hyes
      rw [if_pos (hyes (by decide)), r.bufferLine_payload st 1 (by rw [h]; rfl) (by rw [h]; rfl),
        r.add_of_input st (by rw [h]; rfl) (hcmd _ h)]
  | gemmWeight =>
      rw [h] at hno hyes
      rw [if_neg (hno 'n' (by decide)),
        if_pos (hyes (by decide)), r.bufferLine_payload st 2 (by rw [h]; rfl) (by rw [h]; rfl),
        r.add_of_input st (by rw [h]; rfl) (hcmd _ h)]
  | aluBias | gemmBias =>
      rw [h] at hno hyes
      rw [if_neg (hno 'n' (by decide)),
        if_neg (hno 'w' (by decide)),
        if_pos (hyes (by decide)), r.bufferLine_payload st 3 (by rw [h]; rfl) (by rw [h]; rfl),
        r.add_of_input st (by rw [h]; rfl) (hcmd _ h)]
  | uop =>
      rw [h] at hno hyes
      rw [if_neg (hno '_' (by decide)),
        if_neg (hno '_' (by decide)),
        if_neg (hno '_' (by decide)),
        if_pos (hyes (by decide)), r.uopLine_payload st h,
        r.add_of_input st (by rw [h]; rfl) (hcmd _ h)]
  | instr =>
      rw [h] at hno hyes
      rw [if_neg (hno '_' (by decide)),
        if_neg (hno '_' (by decide)),
        if_neg (hno '_' (by decide)),
        if_neg (hno 'u' (by decide)),
        if_pos (hyes (by decide)), r.instrLine_payload st h,
        r.add_of_input st (by rw [h]; rfl) (hcmd _ h)]
  | aluOut =>
      rw [h] at hno hyes
      rw [if_neg (hno 'n' (by decide)),
        if_neg (hno 'w' (by decide)),
        if_neg (hno 'i' (by decide)),
        if_neg (hno 'p' (by decide)),
        if_neg (hno 'i' (by decide)),
        if_pos (hyes (by decide)), r.outLine_payload st (by rw [h]; rfl) (by rw [h]; rfl),
        r.add_of_output st (by rw [h]; rfl)]
  | gemmOutput =>
      rw [h] at hno hyes
      rw [if_neg (hno 'n' (by decide)),
        if_neg (hno 'w' (by decide)),
        if_neg (hno 'i' (by decide)),
        if_neg (r.not_contains_uop h),
        if_neg (hno 'i' (by decide)),
        if_pos (hyes (by decide)), r.outLine_payload st (by rw [h]; rfl) (by rw [h]; rfl),
        r.add_of_output st (by rw [h]; rfl)]

end IlaRecord

/-! ## A whole run -/

/-- The commands made of a list of records, numbered from `n`. -/
def commandsOf : ℕ → List IlaRecord → List Command
  | _, [] => []
  | n, r :: records =>
      if r.kind.isOutput then commandsOf n records
      else r.command n :: commandsOf (n + 1) records

/-- The results made of a list of records. -/
def resultsOf (records : List IlaRecord) : List SimResult :=
  (records.filter (·.kind.isOutput)).map IlaRecord.result

/-- The tool's output on the lines of a list of records. -/
theorem foldlM_payloads : ∀ (records : List IlaRecord) (st : GenState), ∃ n,
    (records.map IlaRecord.payload).foldlM parseLine st =
      some ⟨st.cmdV ++ commandsOf st.instrCntr records, st.resultV ++ resultsOf records, n⟩
  | [], st => ⟨st.instrCntr, by simp [commandsOf, resultsOf]⟩
  | r :: records, st => by
      obtain ⟨n, ih⟩ := foldlM_payloads records (st.add r)
      refine ⟨n, ?_⟩
      rw [List.map_cons, foldlM_cons_some (r.parseLine_payload st), ih]
      by_cases h : r.kind.isOutput
      · simp [GenState.add, commandsOf, resultsOf, h]
      · simp [GenState.add, GenState.push, commandsOf, resultsOf, h]

/-- The log of one run, extracted and parsed. -/
def decodeRun (r : TestRun) : Option GenState := do
  let out ← extractSimLog r.log
  let lines ← out.files r.params.name
  inputGen lines

theorem decodeRun_eq (r : TestRun) :
    ∃ n, decodeRun r = some ⟨commandsOf 0 r.records, resultsOf r.records, n⟩ := by
  obtain ⟨n, h⟩ := foldlM_payloads r.records ⟨[], [], 0⟩
  refine ⟨n, ?_⟩
  have hextract : extractSimLog r.log = some (runStep ⟨[], fun _ => none, none⟩ r) :=
    extract_run _ r
  have hfile : (runStep ⟨[], fun _ => none, none⟩ r).files r.params.name = some r.payloads := by
    simp [runStep]
  simp only [decodeRun, hextract, Option.bind_eq_bind, Option.bind_some, hfile]
  exact h

/-! ## What the tool should make of a record -/

/-- A port of `w` bits is driven to `v` by a text that denotes `v` up to its width. -/
def Drives (w : ℕ) (text : Str) (v : ℕ) : Prop :=
  ∃ n, hexValue text = some n ∧ n % 2 ^ w = v % 2 ^ w

/-- The command writes the record's value, at its index, to the memory of its kind; an instruction
goes to the instruction port. -/
def Carries (cmd : Command) (r : IlaRecord) : Prop :=
  match r.kind with
  | .instr => cmd.memMode = 0 ∧ Drives 128 cmd.instrIn r.value
  | .gemmInput => cmd.memMode = 1 ∧ cmd.memAddr = r.index ∧ Drives 8 cmd.memInpIn r.value
  | .gemmWeight => cmd.memMode = 2 ∧ cmd.memAddr = r.index ∧ Drives 8 cmd.memWgtIn r.value
  | .aluBias | .gemmBias =>
      cmd.memMode = 3 ∧ cmd.memAddr = r.index ∧ Drives 32 cmd.memBiasIn r.value
  | .uop => cmd.memMode = 4 ∧ cmd.memAddr = r.index ∧ Drives 32 cmd.memUopIn r.value
  | .aluOut | .gemmOutput => False

/-- The result is the record's value at its index. -/
def Expects (res : SimResult) (r : IlaRecord) : Prop :=
  res.outputAddr = r.index ∧ hexValue res.outputData = some r.value

/-- Parsing undoes printing: one command for each input record and one result for each output
record, in order, each with the record's content. -/
def Undoes (r : TestRun) : Prop :=
  ∃ out, decodeRun r = some out ∧
    List.Forall₂ Carries out.cmdV (r.records.filter (!·.kind.isOutput)) ∧
    List.Forall₂ Expects out.resultV (r.records.filter (·.kind.isOutput))

namespace IlaRecord

variable (r : IlaRecord)

/-- The printed value reads back as the value. -/
lemma hexValue_valueText : hexValue (hexText r.valueText) = some r.value := by
  have hne : r.valueText ≠ [] := by
    rw [← List.length_pos_iff, r.length_valueText]
    exact r.kind.digits_pos
  rw [hexValue_hexText hne r.isDigit_of_mem_valueText, r.ofDigits_valueText]

/-- The text cut out of an instruction line is no number. -/
lemma hexValue_instr (h : r.kind = .instr) :
    hexValue (hexText ('0' :: (r.payload.drop 1).take 32)) = none := by
  obtain ⟨rest, hrest⟩ : ∃ rest, r.payload = ' ' :: 'i' :: rest := by
    unfold payload
    rw [h]
    exact ⟨_, rfl⟩
  have hmem : 'i' ∈ '0' :: (r.payload.drop 1).take 32 := by
    rw [hrest]
    simp
  exact hexValue_eq_none hmem (by decide)

/-- A command carries its record unless it is an instruction. -/
lemma carries_command_iff (n : ℕ) (hinput : r.kind.isOutput = false) :
    Carries (r.command n) r ↔ r.kind ≠ .instr := by
  have hdrives : ∀ w, Drives w (hexText r.valueText) r.value := fun w =>
    ⟨r.value, r.hexValue_valueText, rfl⟩
  unfold Carries command
  cases h : r.kind with
  | instr =>
      simp only [ne_eq, not_true_eq_false, iff_false, not_and]
      rintro - ⟨v, hv, -⟩
      rw [instrCommand, r.hexValue_instr h] at hv
      cases hv
  | uop | aluBias | gemmBias | gemmInput | gemmWeight =>
      simp only [ne_eq, reduceCtorEq, not_false_eq_true, iff_true]
      exact ⟨rfl, rfl, hdrives _⟩
  | aluOut | gemmOutput =>
      rw [h] at hinput
      cases hinput

end IlaRecord

/-- Results are always right. -/
lemma expects_resultsOf (records : List IlaRecord) :
    List.Forall₂ Expects (resultsOf records) (records.filter (·.kind.isOutput)) := by
  rw [resultsOf, List.forall₂_map_left_iff, List.forall₂_same]
  exact fun r _ => ⟨rfl, r.hexValue_valueText⟩

/-- Commands are right up to instructions. -/
lemma carries_commandsOf_iff : ∀ (n : ℕ) (records : List IlaRecord),
    List.Forall₂ Carries (commandsOf n records) (records.filter (!·.kind.isOutput)) ↔
      ∀ r ∈ records, r.kind ≠ .instr
  | _, [] => by simp [commandsOf]
  | n, r :: records => by
      rw [List.forall_mem_cons, commandsOf]
      cases h : r.kind.isOutput with
      | true =>
          have hinstr : r.kind ≠ .instr := by
            intro hk
            rw [hk] at h
            cases h
          rw [if_pos rfl, List.filter_cons_of_neg (by simp [h]), carries_commandsOf_iff n records]
          exact (and_iff_right hinstr).symm
      | false =>
          rw [if_neg (by decide), List.filter_cons_of_pos (by simp [h]), List.forall₂_cons,
            r.carries_command_iff n h, carries_commandsOf_iff (n + 1) records]

/-- **When the tools undo the printing of a run**: exactly when it prints no instruction. -/
theorem undoes_iff (r : TestRun) : Undoes r ↔ ∀ i ∈ r.records, i.kind ≠ .instr := by
  obtain ⟨n, hout⟩ := decodeRun_eq r
  rw [← carries_commandsOf_iff 0 r.records, Undoes]
  constructor
  · rintro ⟨out, hout', hcmd, -⟩
    obtain rfl := Option.some.inj (hout.symm.trans hout')
    exact hcmd
  · exact fun hcmd => ⟨_, hout, hcmd, expects_resultsOf r.records⟩

/-- A run that prints one instruction loses it. -/
theorem not_undoes_instr :
    ¬ Undoes ⟨.gemm 16 16 16 false, [], [.inr ⟨.instr, 0, 3, by decide, by decide⟩], 0⟩ := by
  rintro ⟨out, hout, hcmd, -⟩
  obtain ⟨n, hout'⟩ := decodeRun_eq
    ⟨.gemm 16 16 16 false, [], [.inr ⟨.instr, 0, 3, by decide, by decide⟩], 0⟩
  obtain rfl := Option.some.inj (hout'.symm.trans hout)
  obtain ⟨-, v, hv, -⟩ := (List.forall₂_cons.mp hcmd).1
  have hnone := IlaRecord.hexValue_instr ⟨.instr, 0, 3, by decide, by decide⟩ rfl
  exact absurd (hv.symm.trans hnone) (by simp)

end ThreeLaSim
