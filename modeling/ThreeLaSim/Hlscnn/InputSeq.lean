import Mathlib.Data.List.Forall2
import ThreeLaSim.Core.HexWord
import ThreeLaSim.Core.History

/-!
# From an hlscnn log to the input ports

`extract_input_seq` takes the bus commands out of the log of the accelerator and writes them to a
JSON file, with their data filled up to 32 digits; the source of the testbench reads the file and
puts the commands on its ports, the data word byte by byte from the right.

* `extractInputSeq`, `hlscnnSource` — the two programs.
* `BusReady` — what holds after every line of the log, whatever stands between the commands.
* **`inputSeq_transported`** — one port assignment for each command of the log, with the address and
  the sixteen bytes of the data.
-/

namespace ThreeLaSim

open CText History

/-! ## `extract_input_seq` -/

/-- The variables the fields of a line are read into.  They outlive the line. -/
structure BusFields where
  mode : Str := []
  addr : Str := []
  data : Str := []
  deriving DecidableEq, Repr

/-- The three `getline`s on what is left of a line. -/
def BusFields.read (old : BusFields) (temp : Str) : BusFields :=
  let (mode, dataLine) := getlineInto ',' old.mode (some temp)
  let (addr, dataLine) := getlineInto ',' old.addr dataLine
  let (data, _) := getlineInto '\n' old.data dataLine
  ⟨mode, addr, data⟩

/-- An entry of `"program fragment"`. -/
structure HlscnnCommand where
  instrNo : ℕ
  isRd : Str
  isWr : Str
  addr : Str
  data : Str
  deriving DecidableEq, Repr

/-- The state of `main` between two lines. -/
structure InputState where
  fields : BusFields := {}
  instrCntr : ℕ := 0
  commandV : List HlscnnCommand := []
  deriving DecidableEq, Repr

/-- `command_v.push_back(command)`. -/
def InputState.push (st : InputState) (isRd isWr dataFormat : Str) : InputState :=
  { st with
    instrCntr := st.instrCntr + 1
    commandV := st.commandV ++ [⟨st.instrCntr, isRd, isWr, st.fields.addr, dataFormat⟩] }

/-- The marker of a command line. -/
def busInfo : Str := "[[ILA-INFO]]".toList

/-- What a line holds behind its first `]]`, a colon and a blank; none where `substr` throws. -/
def busBody (temp : Str) : Option Str := substrFrom temp (posAdd (find "]]".toList temp) 3)

/-- One line of the log. -/
def inputLine (st : InputState) (temp : Str) : Option InputState :=
  if !contains busInfo temp then some st
  else do
    let temp ← busBody temp
    let st := { st with fields := st.fields.read temp }
    -- for more than 32 digits the count wraps round, and `append` throws
    guard (st.fields.data.length ≤ 32)
    let dataFormat := List.replicate (32 - st.fields.data.length) '0' ++ st.fields.data
    if contains "W".toList st.fields.mode then return st.push "0".toList "1".toList dataFormat
    else if contains "R".toList st.fields.mode then return st.push "1".toList "0".toList dataFormat
    else return st

/-- `extract_input_seq`, on the lines of the log. -/
def extractInputSeq (log : List Str) : Option (List HlscnnCommand) := do
  let st ← log.foldlM inputLine {}
  return st.commandV

/-! ## The source -/

/-- What the source assigns to its ports for one command. -/
structure HlscnnAssign where
  ifRd : BitVec 1
  ifWr : BitVec 1
  addrIn : BitVec 32
  dataIn : List (BitVec 8)
  deriving DecidableEq, Repr

/-- Byte `j` of the data of a command: `stoi(data.substr(30-2*j,2), nullptr, 16)`. -/
def busByte (data : Str) (j : ℕ) : Option ℤ := do
  let byte ← substr data (30 - 2 * j) 2
  stoi 16 byte

/-- The body of the loop in `source_input`. -/
def hlscnnDrive (cmd : HlscnnCommand) : Option HlscnnAssign := do
  let ifRd ← stoi 16 cmd.isRd
  let ifWr ← stoi 16 cmd.isWr
  let addrIn ← stoi 16 cmd.addr
  let dataIn ← (List.range 16).mapM (busByte cmd.data)
  return {
    ifRd := BitVec.ofInt 1 ifRd
    ifWr := BitVec.ofInt 1 ifWr
    addrIn := BitVec.ofInt 32 addrIn
    dataIn := dataIn.map (BitVec.ofInt 8) }

/-- `source_input`, on the commands of the JSON. -/
def hlscnnSource (cmdSeq : List HlscnnCommand) : Option (List HlscnnAssign) :=
  cmdSeq.mapM hlscnnDrive

/-! ## Logs -/

/-- What stands before the mode of a command line. -/
def busHead : Str := "[[ILA-INFO]]: ".toList

/-- A command of a type that is not supported: neither a `W` nor an `R` stands in its first field, and
its data is no longer than 32 characters.  Longer data end the program before it looks at the type. -/
def UnsupportedType (temp : Str) : Prop :=
  ∃ body, busBody temp = some body ∧
    contains "W".toList (({} : BusFields).read body).mode = false ∧
    contains "R".toList (({} : BusFields).read body).mode = false ∧
    (({} : BusFields).read body).data.length ≤ 32

/-- Any other line: without the marker, or of a type that is not supported. -/
structure SkippedLine where
  text : Str
  skipped : contains busInfo text = false ∨ UnsupportedType text

/-- A command line: write or read, the digits of the address, with or without `0x`, and the digits of
the data. -/
structure BusLine where
  write : Bool
  prefixed : Bool
  addrDigits : Str
  dataDigits : Str
  addr_ne_nil : addrDigits ≠ []
  addr_digits : ∀ c ∈ addrDigits, isDigit 16 c = true
  addr_lt : ofDigits 16 addrDigits < 2 ^ 31
  data_ne_nil : dataDigits ≠ []
  data_digits : ∀ c ∈ dataDigits, isDigit 16 c = true
  data_length : dataDigits.length ≤ 32

namespace BusLine

variable (l : BusLine)

/-- The address. -/
def addr : ℕ := ofDigits 16 l.addrDigits

/-- The number the data digits denote. -/
def value : ℕ := ofDigits 16 l.dataDigits

/-- The address as it is printed. -/
def addrText : Str := if l.prefixed then hexText l.addrDigits else l.addrDigits

/-- The letter of the mode. -/
def mode : Char := if l.write then 'W' else 'R'

/-- The line. -/
def text : Str := busHead ++ l.mode :: ',' :: (l.addrText ++ ',' :: l.dataDigits)

/-- The entry of the line, when `n` commands stand before it. -/
def command (n : ℕ) : HlscnnCommand where
  instrNo := n
  isRd := if l.write then "0".toList else "1".toList
  isWr := if l.write then "1".toList else "0".toList
  addr := l.addrText
  data := hexWord 16 l.dataDigits

/-- The port assignment of the line. -/
def assign : HlscnnAssign where
  ifRd := if l.write then 0 else 1
  ifWr := if l.write then 1 else 0
  addrIn := BitVec.ofNat 32 l.addr
  dataIn := (List.range 16).map fun j => BitVec.ofNat 8 (ofDigits 16 (hexByte 16 l.dataDigits j))

end BusLine

/-- A line of a log. -/
def busText : SkippedLine ⊕ BusLine → Str
  | .inl o => o.text
  | .inr l => l.text

/-- The lines of a log. -/
def busLog (items : List (SkippedLine ⊕ BusLine)) : List Str := items.map busText

/-- The command lines of a log. -/
def busLines (items : List (SkippedLine ⊕ BusLine)) : List BusLine := items.filterMap Sum.getRight?

/-! ## Reading the fields -/

/-- The mode of a line does not depend on the lines before it. -/
lemma BusFields.read_mode (old old' : BusFields) (temp : Str) :
    (old.read temp).mode = (old'.read temp).mode := rfl

/-- A line with fewer than two commas leaves the data of the lines before it. -/
lemma BusFields.read_data (old old' : BusFields) (temp : Str) :
    (old.read temp).data = old.data ∨ (old.read temp).data = (old'.read temp).data := by
  have hrest : (getlineInto ',' old.addr (getlineInto ',' old.mode (some temp)).2).2
      = (getlineInto ',' old'.addr (getlineInto ',' old'.mode (some temp)).2).2 :=
    getlineInto_rest ',' old.addr old'.addr _
  simp only [read, hrest]
  exact getlineInto_field '\n' old.data old'.data _

namespace BusLine

variable (l : BusLine)

lemma comma_not_mem_addrText : ',' ∉ l.addrText := by
  rw [addrText]
  split_ifs
  · exact not_mem_hexText l.addr_digits (by decide) (by decide)
  · exact not_mem_digits l.addr_digits (by decide)

/-- The body of a command line begins with a blank. -/
lemma busBody_text :
    busBody l.text = some ([' ', l.mode] ++ ',' :: (l.addrText ++ ',' :: l.dataDigits)) := by
  have hfind : find "]]".toList l.text = some 10 := by
    have hhead : busHead = "[[ILA-INFO".toList ++ "]]: ".toList := by decide
    rw [text, hhead, List.append_assoc]
    exact find_append ((by decide : "]]".toList <+: "]]: ".toList).trans
      (List.prefix_append _ _)) _ (by decide)
  have hhead : busHead = "[[ILA-INFO]]:".toList ++ [' '] := by decide
  rw [busBody, hfind, text, hhead, List.append_assoc]
  exact substrFrom_append (by decide)

/-- **Slicing a command line**: its three fields, whatever the lines before it held. -/
lemma read_text (old : BusFields) :
    old.read ([' ', l.mode] ++ ',' :: (l.addrText ++ ',' :: l.dataDigits))
      = ⟨[' ', l.mode], l.addrText, l.dataDigits⟩ := by
  have hmode : ',' ∉ [' ', l.mode] := by
    rw [mode]
    split_ifs <;> decide
  have hdata : '\n' ∉ l.dataDigits := not_mem_digits l.data_digits (by decide)
  rw [BusFields.read, getlineInto_append hmode]
  simp only [getlineInto_append l.comma_not_mem_addrText, getlineInto_last hdata]

/-- A mode with a `W` is a write. -/
lemma contains_write : contains "W".toList [' ', l.mode] = l.write := by
  rw [mode]
  cases l.write with
  | true => decide
  | false => decide

/-- A mode with an `R` is a read. -/
lemma contains_read : contains "R".toList [' ', l.mode] = !l.write := by
  rw [mode]
  cases l.write with
  | true => decide
  | false => decide

/-- **One command line** is one entry more. -/
lemma inputLine_text (st : InputState) : inputLine st l.text = some {
    fields := ⟨[' ', l.mode], l.addrText, l.dataDigits⟩
    instrCntr := st.instrCntr + 1
    commandV := st.commandV ++ [l.command st.instrCntr] } := by
  have hmark : contains busInfo l.text = true := contains_append_left (by decide) _
  have hword : List.replicate (32 - l.dataDigits.length) '0' ++ l.dataDigits
      = hexWord 16 l.dataDigits := (@hexWord_of_length_le 16 _ l.data_length).symm
  rw [inputLine, hmark, l.busBody_text]
  simp only [Bool.not_true, Bool.false_eq_true, if_false, Option.bind_eq_bind, Option.bind_some,
    l.read_text, guard, if_pos l.data_length, hword, l.contains_write, l.contains_read, command]
  cases l.write with
  | true => rfl
  | false => rfl

end BusLine

/-! ## The commands of a log -/

/-- What holds behind some lines of a log: their commands are numbered and recorded, and the data
variable holds at most 32 characters. -/
structure BusReady (lines : List BusLine) (st : InputState) : Prop where
  counted : st.instrCntr = lines.length
  recorded : st.commandV = lines.zipIdx.map fun p => p.1.command p.2
  short : st.fields.data.length ≤ 32

lemma busReady_nil : BusReady [] {} := ⟨rfl, rfl, Nat.zero_le _⟩

namespace BusReady

variable {lines : List BusLine} {st : InputState} (h : BusReady lines st)
include h

/-- A command line adds its command. -/
lemma inputLine_bus (l : BusLine) :
    ∃ st', inputLine st l.text = some st' ∧ BusReady (lines ++ [l]) st' := by
  refine ⟨_, l.inputLine_text st, ?_⟩
  constructor
  · simp [h.counted]
  · simp [h.recorded, h.counted, List.zipIdx_append]
  · exact l.data_length

/-- Any other line adds nothing.  When its type is not supported its fields are read all the same,
and its data are padded before the type is looked at. -/
lemma inputLine_skipped (o : SkippedLine) :
    ∃ st', inputLine st o.text = some st' ∧ BusReady lines st' := by
  by_cases hmark : contains busInfo o.text = true
  · obtain ⟨body, hbody, hw, hr, hlen⟩ := o.skipped.resolve_left (by simp [hmark])
    have hshort : (st.fields.read body).data.length ≤ 32 := by
      rcases st.fields.read_data {} body with hdata | hdata
      · exact hdata ▸ h.short
      · exact hdata ▸ hlen
    rw [BusFields.read_mode _ st.fields] at hw hr
    refine ⟨{ st with fields := st.fields.read body }, ?_, h.counted, h.recorded, hshort⟩
    rw [inputLine, hmark, hbody]
    simp only [Bool.not_true, Bool.false_eq_true, if_false, Option.bind_eq_bind, Option.bind_some,
      guard, if_pos hshort, hw, hr]
    rfl
  · have hno : contains busInfo o.text = false := by simpa using hmark
    refine ⟨st, ?_, h⟩
    rw [inputLine, hno]
    rfl

end BusReady

/-- Any line of a log. -/
lemma BusReady.inputLine_busText {items : List (SkippedLine ⊕ BusLine)} {st : InputState}
    (h : BusReady (busLines items) st) (item : SkippedLine ⊕ BusLine) :
    ∃ st', inputLine st (busText item) = some st' ∧ BusReady (busLines (items ++ [item])) st' := by
  cases item with
  | inl o =>
      have hlines : busLines (items ++ [.inl o]) = busLines items := by simp [busLines]
      rw [hlines]
      exact h.inputLine_skipped o
  | inr l =>
      have hlines : busLines (items ++ [.inr l]) = busLines items ++ [l] := by simp [busLines]
      rw [hlines]
      exact h.inputLine_bus l

/-- **The commands of a log**, numbered in the order of the log. -/
theorem extractInputSeq_busLog (items : List (SkippedLine ⊕ BusLine)) :
    extractInputSeq (busLog items)
      = some ((busLines items).zipIdx.map fun p => p.1.command p.2) := by
  have hstep : ∀ (pre : List (SkippedLine ⊕ BusLine)) (st : InputState)
      (item : SkippedLine ⊕ BusLine), BusReady (busLines pre) st → ∃ st',
        inputLine st (busText item) = some st' ∧ BusReady (busLines (pre ++ [item])) st' :=
    fun _ _ item h => h.inputLine_busText item
  obtain ⟨st, hlog, h⟩ := exists_foldlM hstep busReady_nil items
  rw [extractInputSeq, busLog, List.foldlM_map, hlog, Option.bind_eq_bind, Option.bind_some,
    h.recorded]
  rfl

/-! ## The ports -/

namespace BusLine

variable (l : BusLine)

/-- The address is an `int`. -/
lemma stoi_addrText : stoi 16 l.addrText = some (l.addr : ℤ) := by
  have hlt := l.addr_lt
  rw [addrText, addr]
  split_ifs
  · rw [stoi_hexText l.addr_ne_nil l.addr_digits, if_pos hlt]
  · rw [stoi_digits_nil l.addr_ne_nil l.addr_digits, if_pos hlt]

/-- The source cuts the padded word into its bytes. -/
lemma mapM_busByte : (List.range 16).mapM (busByte (hexWord 16 l.dataDigits))
    = some ((List.range 16).map fun j => (ofDigits 16 (hexByte 16 l.dataDigits j) : ℤ)) := by
  refine mapM_eq_some_map ?_
  intro j _
  have hslice : substr (hexWord 16 l.dataDigits) (30 - 2 * j) 2 = some (hexByte 16 l.dataDigits j) :=
    substr_hexWord 16 l.dataDigits j
  rw [busByte, hslice, Option.bind_eq_bind, Option.bind_some]
  exact stoi_hexByte (by decide) l.data_digits j

/-- **One command on the ports.** -/
lemma hlscnnDrive_command (n : ℕ) : hlscnnDrive (l.command n) = some l.assign := by
  have hzero : stoi 16 "0".toList = some 0 := by decide
  have hone : stoi 16 "1".toList = some 1 := by decide
  have hrd : stoi 16 (l.command n).isRd = some (if l.write then 0 else 1) := by
    rw [command]
    cases l.write with
    | true => exact hzero
    | false => exact hone
  have hwr : stoi 16 (l.command n).isWr = some (if l.write then 1 else 0) := by
    rw [command]
    cases l.write with
    | true => exact hone
    | false => exact hzero
  have haddr : stoi 16 (l.command n).addr = some (l.addr : ℤ) := l.stoi_addrText
  have hdata : (List.range 16).mapM (busByte (l.command n).data) = some _ := l.mapM_busByte
  rw [hlscnnDrive, hrd, hwr, haddr, hdata]
  cases hwrite : l.write with
  | true => simp [assign, hwrite]
  | false => simp [assign, hwrite]

/-- A write is a write and no read. -/
lemma assign_ifWr : l.assign.ifWr.toNat = if l.write then 1 else 0 := by
  rw [assign]
  cases l.write with
  | true => rfl
  | false => rfl

lemma assign_ifRd : l.assign.ifRd.toNat = if l.write then 0 else 1 := by
  rw [assign]
  cases l.write with
  | true => rfl
  | false => rfl

/-- The port is wide enough for the address. -/
lemma assign_addrIn : l.assign.addrIn.toNat = l.addr := by
  have hlt : l.addr < 2 ^ 31 := l.addr_lt
  rw [assign, BitVec.toNat_ofNat]
  exact Nat.mod_eq_of_lt (by omega)

lemma length_dataIn : l.assign.dataIn.length = 16 := by simp [assign]

/-- The bytes of the number, the lowest first. -/
lemma assign_dataIn {j : ℕ} (hj : j < 16) :
    (l.assign.dataIn[j]?).map BitVec.toNat = some (l.value / 256 ^ j % 256) := by
  have hbyte := ofDigits_hexByte_lt l.data_digits (by decide : 0 < 16) j
  simp only [assign, List.getElem?_map, List.getElem?_range hj, Option.map_some, BitVec.toNat_ofNat]
  rw [Nat.mod_eq_of_lt hbyte, ofDigits_hexByte l.data_digits hj, value]

end BusLine

/-- The source reads the commands of a log back, one by one. -/
lemma hlscnnSource_commands (lines : List BusLine) :
    hlscnnSource (lines.zipIdx.map fun p => p.1.command p.2) = some (lines.map BusLine.assign) := by
  rw [hlscnnSource]
  exact mapM_zipIdx_map BusLine.hlscnnDrive_command lines

/-- **The command path of hlscnn**: whatever stands between the command lines of a log, the source
drives one port assignment for each of them, in their order, a write or a read as the line says,
with the address and the sixteen bytes of the data, the lowest first. -/
theorem inputSeq_transported (items : List (SkippedLine ⊕ BusLine)) :
    ∃ assigns, (extractInputSeq (busLog items)).bind hlscnnSource = some assigns ∧
      List.Forall₂ (fun (l : BusLine) (a : HlscnnAssign) =>
        a.ifWr.toNat = (if l.write then 1 else 0) ∧ a.ifRd.toNat = (if l.write then 0 else 1) ∧
        a.addrIn.toNat = l.addr ∧ a.dataIn.length = 16 ∧
        ∀ j < 16, (a.dataIn[j]?).map BitVec.toNat = some (l.value / 256 ^ j % 256))
        (busLines items) assigns := by
  refine ⟨(busLines items).map BusLine.assign, ?_, ?_⟩
  · rw [extractInputSeq_busLog, Option.bind_some, hlscnnSource_commands]
  · rw [List.forall₂_map_right_iff]
    refine List.forall₂_same.mpr ?_
    intro l _
    exact ⟨l.assign_ifWr, l.assign_ifRd, l.assign_addrIn, l.length_dataIn, fun j => l.assign_dataIn⟩

end ThreeLaSim
