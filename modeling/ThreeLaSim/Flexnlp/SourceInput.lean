import ThreeLaSim.Flexnlp.MaxpTestGen

/-!
# From a flexnlp command file to the input ports

A row of a flexnlp command file is decoded in several programs.  The first testbench reads the file
itself; the others read the JSON that `extract_prog_frag` makes of it; the co-simulation of the max
pooling reads the file, and so does `maxp_test_gen`.  All of them cut the data word by the same
lines of code, but only the testbenches drop a carriage return first.

* **`routes_agree`** — the file and the JSON lead to the same port assignments, which carry the data
  word.
* **`agree_iff`** — all programs read the same word from a row exactly when no carriage return
  ends it.
-/

namespace ThreeLaSim

open CText

/-! ## The programs -/

/-- The sixteen slices `data_format.substr(30-2*i, 2)`. -/
def byteSlices (dataFormat : Str) : Option (List Str) :=
  (List.range 16).mapM fun i => substr dataFormat (30 - 2 * i) 2

/-- `data` without the carriage return that may end it. -/
def stripCr (data : Str) : Str := if data.getLast? = some '\r' then data.dropLast else data

/-- The byte texts the testbenches cut out of a row. -/
def sourceBytes (data : Str) : Option (List Str) := do
  let dataFormat ← dataFormat (stripCr data)
  byteSlices dataFormat

/-- The byte texts `maxpool_sim_main` cuts out of a row; the carriage return stays. -/
def cosimBytes (data : Str) : Option (List Str) := do
  let dataFormat ← dataFormat data
  byteSlices dataFormat

/-- What a testbench assigns to its ports for one command. -/
structure PortAssign where
  flexWrIn : ℕ
  flexRdIn : ℕ
  flexAddrIn : Str
  flexDataIn : List ℤ
  deriving DecidableEq, Repr

/-- The body of the loop in `source_input`, the same lines in all testbenches. -/
def drive (mode addr data : Str) : Option PortAssign := do
  let bytes ← sourceBytes data
  let flexDataIn ← bytes.mapM (stoi 16)
  return {
    flexWrIn := if mode = "W".toList then 1 else 0
    flexRdIn := if mode = "W".toList then 0 else 1
    flexAddrIn := addr
    flexDataIn := flexDataIn }

/-- `source_input` of the first testbench, on the text of a command file. -/
def sourceInputCsv (fin : Str) : Option (List PortAssign) := do
  let rows ← readRows traceDelims fin
  rows.mapM fun
    | [_, mode, addr, data] => drive mode addr data
    | _ => none

/-- An entry of `"program fragment"`. -/
structure ProgCommand where
  instrNo : ℕ
  mode : Str
  addr : Str
  data : Str
  deriving DecidableEq, Repr

/-- `extract_prog_frag`, on the text of a command file. -/
def extractProgFrag (logFileIn : Str) : Option (List ProgCommand) := do
  let rows ← readRows traceDelims logFileIn
  (rows.zipIdx).mapM fun
    | ([_, mode, addr, data], instrCntr) => some ⟨instrCntr, mode, addr, data⟩
    | _ => none

/-- `source_input` of the other testbenches, on the commands of the JSON. -/
def sourceInputJson (cmdSeq : List ProgCommand) : Option (List PortAssign) :=
  cmdSeq.mapM fun cmd => drive cmd.mode cmd.addr cmd.data

/-! ## Command files -/

/-- A row of a command file: `x,mode,addr,0xH...H`, ended by a line feed or by a carriage return and
a line feed. -/
structure FlexRow where
  tag : Str
  mode : Str
  addr : Str
  digits : Str
  crlf : Bool
  comma_not_mem_tag : ',' ∉ tag
  comma_not_mem_mode : ',' ∉ mode
  comma_not_mem_addr : ',' ∉ addr
  digits_ne_nil : digits ≠ []
  digits_hex : ∀ c ∈ digits, isDigit 16 c = true

namespace FlexRow

variable (r : FlexRow)

/-- What stands between the last comma and the line feed. -/
def data : Str := hexText r.digits ++ if r.crlf then ['\r'] else []

/-- The four fields of the row. -/
def fields : List Str := [r.tag, r.mode, r.addr, r.data]

/-- The number the digits denote. -/
def value : ℕ := ofDigits 16 r.digits

/-- The port assignment of the row. -/
def assign : PortAssign where
  flexWrIn := if r.mode = "W".toList then 1 else 0
  flexRdIn := if r.mode = "W".toList then 0 else 1
  flexAddrIn := r.addr
  flexDataIn := (List.range 16).map fun i => (ofDigits 16 (hexByte 16 r.digits i) : ℤ)

end FlexRow

/-- The text of a command file. -/
def flexText (rows : List FlexRow) : Str := (rows.map FlexRow.fields).flatMap (printRow traceDelims)

/-! ## Cutting the data word -/

/-- The slices of a word of sixteen bytes. -/
lemma byteSlices_hexWord (s : Str) :
    byteSlices (hexWord 16 s) = some ((List.range 16).map (hexByte 16 s)) := by
  refine mapM_eq_some_map ?_
  intro i _
  exact substr_hexWord 16 s i

lemma cosimBytes_hexText (s : Str) :
    cosimBytes (hexText s) = some ((List.range 16).map (hexByte 16 s)) := by
  rw [cosimBytes, dataFormat_hexText, Option.bind_eq_bind, Option.bind_some, byteSlices_hexWord]

namespace FlexRow

variable (r : FlexRow)

/-- The testbenches cut the digits alone. -/
lemma stripCr_data : stripCr r.data = hexText r.digits := by
  unfold stripCr data
  cases r.crlf with
  | true => simp
  | false =>
      have hlast : (hexText r.digits).getLast? ≠ some '\r' := by
        intro hcr
        have hno : '\r' ∉ hexText r.digits := not_mem_hexText r.digits_hex (by decide) (by decide)
        exact hno (List.mem_of_getLast? hcr)
      simp [hlast]

lemma sourceBytes_data :
    sourceBytes r.data = some ((List.range 16).map (hexByte 16 r.digits)) := by
  rw [sourceBytes, stripCr_data, dataFormat_hexText, Option.bind_eq_bind, Option.bind_some,
    byteSlices_hexWord]

/-- The data word as the ports carry it. -/
lemma drive_eq : drive r.mode r.addr r.data = some r.assign := by
  have hbytes : ((List.range 16).map (hexByte 16 r.digits)).mapM (stoi 16)
      = some ((List.range 16).map fun i => (ofDigits 16 (hexByte 16 r.digits i) : ℤ)) := by
    rw [List.mapM_map]
    refine mapM_eq_some_map ?_
    intro i _
    exact stoi_hexByte (by decide) r.digits_hex i
  rw [drive, sourceBytes_data]
  simp only [Option.bind_eq_bind, Option.bind_some, hbytes]
  rfl

/-- A write in mode `W` and a read otherwise. -/
lemma assign_mode : r.assign.flexWrIn ≤ 1 ∧ (r.assign.flexWrIn = 1 ↔ r.mode = "W".toList) ∧
    r.assign.flexRdIn = 1 - r.assign.flexWrIn := by
  by_cases hmode : r.mode = "W".toList
  · simp only [assign, hmode, if_true]
    decide
  · simp only [assign, hmode, if_false]
    decide

/-- The bytes of the number, the lowest first. -/
lemma assign_byte {i : ℕ} (hi : i < 16) :
    r.assign.flexDataIn[i]? = some ((r.value / 256 ^ i % 256 : ℕ) : ℤ) := by
  simp only [assign, List.getElem?_map, List.getElem?_range hi, Option.map_some]
  rw [ofDigits_hexByte r.digits_hex hi, value]

lemma rowOf_fields : RowOf traceDelims r.fields := by
  have hdata : '\n' ∉ r.data := by
    rw [data, List.mem_append, not_or]
    refine ⟨not_mem_hexText r.digits_hex (by decide) (by decide), ?_⟩
    cases r.crlf <;> simp
  exact .cons r.comma_not_mem_tag (.cons r.comma_not_mem_mode (.cons r.comma_not_mem_addr
    (.cons hdata .nil)))

end FlexRow

/-- Reading a command file back. -/
lemma readRows_flexText (rows : List FlexRow) :
    readRows traceDelims (flexText rows) = some (rows.map FlexRow.fields) := by
  refine readRows_printRows (by decide) ?_
  intro row hrow
  obtain ⟨r, -, rfl⟩ := List.mem_map.mp hrow
  exact r.rowOf_fields

/-! ## The two routes -/

/-- `extract_prog_frag` keeps the last three fields of every row. -/
lemma extractProgFrag_flexText (rows : List FlexRow) : extractProgFrag (flexText rows)
    = some (rows.zipIdx.map fun p => ⟨p.2, p.1.mode, p.1.addr, p.1.data⟩) := by
  rw [extractProgFrag, readRows_flexText, Option.bind_eq_bind, Option.bind_some, List.zipIdx_map,
    List.mapM_map]
  refine mapM_eq_some_map ?_
  intro p _
  rfl

/-- The testbench that reads the file. -/
lemma sourceInputCsv_flexText (rows : List FlexRow) :
    sourceInputCsv (flexText rows) = some (rows.map FlexRow.assign) := by
  rw [sourceInputCsv, readRows_flexText, Option.bind_eq_bind, Option.bind_some, List.mapM_map]
  refine mapM_eq_some_map ?_
  intro r _
  exact r.drive_eq

/-- The testbenches that read the JSON. -/
lemma sourceInputJson_flexText (rows : List FlexRow) :
    (extractProgFrag (flexText rows)).bind sourceInputJson = some (rows.map FlexRow.assign) := by
  rw [extractProgFrag_flexText, Option.bind_some, sourceInputJson]
  refine @mapM_zipIdx_map FlexRow ProgCommand PortAssign _
    (fun r n => ⟨n, r.mode, r.addr, r.data⟩) FlexRow.assign ?_ rows
  intro r _
  exact r.drive_eq

/-- **The two routes agree.**  From every command file the testbench that reads it and the testbenches
that read the JSON made of it drive the same sequence of port assignments: one for each row, a write
exactly in mode `W` and a read otherwise, with the row's address and the sixteen bytes of its data
word, the lowest first. -/
theorem routes_agree (rows : List FlexRow) :
    ∃ assigns, sourceInputCsv (flexText rows) = some assigns ∧
      (extractProgFrag (flexText rows)).bind sourceInputJson = some assigns ∧
      List.Forall₂ (fun (r : FlexRow) (a : PortAssign) =>
        a.flexWrIn ≤ 1 ∧ (a.flexWrIn = 1 ↔ r.mode = "W".toList) ∧ a.flexRdIn = 1 - a.flexWrIn ∧
        a.flexAddrIn = r.addr ∧ a.flexDataIn.length = 16 ∧
        ∀ i < 16, a.flexDataIn[i]? = some ((r.value / 256 ^ i % 256 : ℕ) : ℤ)) rows assigns := by
  refine ⟨rows.map FlexRow.assign, sourceInputCsv_flexText rows, sourceInputJson_flexText rows, ?_⟩
  rw [List.forall₂_map_right_iff]
  refine List.forall₂_same.mpr ?_
  intro r _
  obtain ⟨hle, hone, hrd⟩ := r.assign_mode
  refine ⟨hle, hone, hrd, rfl, by simp [FlexRow.assign], ?_⟩
  intro i hi
  exact r.assign_byte hi

/-! ## One word for all programs -/

namespace FlexRow

variable (r : FlexRow)

/-- `maxp_test_gen` writes these byte texts into the store rows of the row, whenever it keeps the
row. -/
def RelayRows (bytes : List Str) : Prop :=
  ∀ (numVectors : ℕ) (st : MaxpState) (a : ℤ), stoi 16 r.addr = some a →
    addrMin ≤ a → a ≤ addrMax → maxpRelayAddr numVectors st.i < 2 ^ 31 →
    maxpStep numVectors st r.fields = some {
      i := st.i + 1
      out := st.out ++ (List.range 16).map fun j =>
        storeRow r.mode (maxpRelayAddr numVectors st.i + j) (bytes.getD j []) }

/-- All programs read the same word from the row: `maxp_test_gen`, the co-simulation and the
testbenches cut out the same sixteen byte texts, and text `i` denotes byte `i` of the number modulo
`2 ^ 128`. -/
def Agree : Prop :=
  ∃ bytes, r.RelayRows bytes ∧ cosimBytes r.data = some bytes ∧ sourceBytes r.data = some bytes ∧
    bytes.length = 16 ∧
    ∀ i < 16, hexValue (hexText (bytes.getD i [])) = some (r.value % 2 ^ 128 / 256 ^ i % 256)

/-- The row without its `0x`, as the programs that keep the carriage return see it. -/
def body : Str := r.digits ++ if r.crlf then ['\r'] else []

lemma data_eq : r.data = hexText r.body := rfl

/-- The store rows of a kept row. -/
lemma relayRows_body : r.RelayRows ((List.range 16).map (hexByte 16 r.body)) := by
  intro nv st a ha hmin hmax hfit
  have hkeep : ¬ (a < addrMin ∨ a > addrMax) := by omega
  have hstore : ∀ addr, storeRows r.mode addr (hexWord 16 r.body)
      = some ((List.range 16).map fun j => storeRow r.mode (addr + j)
          (((List.range 16).map (hexByte 16 r.body)).getD j [])) := by
    intro addr
    refine mapM_eq_some_map ?_
    intro j hj
    have hbyte : substr (hexWord 16 r.body) (30 - 2 * j) 2 = some (hexByte 16 r.body j) :=
      substr_hexWord 16 r.body j
    have hget : ((List.range 16).map (hexByte 16 r.body)).getD j [] = hexByte 16 r.body j := by
      simp [List.getD, List.mem_range.mp hj]
    rw [hbyte, hget]
    rfl
  unfold maxpStep fields
  simp only [ha, if_neg hkeep, data_eq, dataFormat_hexText, hstore, guard, if_pos hfit,
    Option.bind_eq_bind, Option.bind_some]
  rfl

/-- A carriage return ends the lowest byte text, unless it is dropped. -/
lemma crlf_eq_false (h : cosimBytes r.data = sourceBytes r.data) : r.crlf = false := by
  rw [data_eq, cosimBytes_hexText, ← data_eq, sourceBytes_data] at h
  have hfirst : hexByte 16 r.body 0 = hexByte 16 r.digits 0 := by
    have h0 := congrArg List.head? (Option.some_inj.mp h)
    simpa [List.range_succ_eq_map] using h0
  cases hcrlf : r.crlf with
  | false => rfl
  | true =>
      have hcr : '\r' ∈ hexByte 16 r.digits 0 := by
        rw [← hfirst, body, hcrlf, if_pos rfl]
        exact mem_hexByte_zero (by decide) r.digits '\r'
      exact absurd hcr (not_mem_digits (hexByte_digits r.digits_hex 0) (by decide))

/-- **When all programs read the same word**: the testbenches alone drop a carriage return. -/
theorem agree_iff : r.Agree ↔ r.crlf = false := by
  constructor
  · rintro ⟨bytes, -, hcosim, hsource, -⟩
    exact r.crlf_eq_false (hcosim.trans hsource.symm)
  · intro hcrlf
    have hbody : r.body = r.digits := by simp [body, hcrlf]
    refine ⟨(List.range 16).map (hexByte 16 r.digits), ?_, ?_, r.sourceBytes_data, by simp, ?_⟩
    · rw [← hbody]
      exact r.relayRows_body
    · rw [data_eq, cosimBytes_hexText, hbody]
    · intro i hi
      have hget : ((List.range 16).map (hexByte 16 r.digits)).getD i [] = hexByte 16 r.digits i := by
        simp [List.getD, hi]
      have hne : hexByte 16 r.digits i ≠ [] := by
        rw [← List.length_pos_iff, length_hexByte (by decide)]
        decide
      have hword : (2 : ℕ) ^ 128 = 256 ^ 16 := by norm_num
      rw [hget, hexValue_hexText hne (hexByte_digits r.digits_hex i), ofDigits_hexByte r.digits_hex hi,
        hword, byte_mod hi, value]

lemma comma_not_mem_x : ',' ∉ ['x'] := not_mem_of_all rfl

lemma comma_not_mem_w : ',' ∉ ['W'] := not_mem_of_all rfl

lemma isDigit_seven : ∀ c ∈ ['7'], isDigit 16 c = true := List.all_eq_true.mp (by decide)

/-- `x,W,0x33500000,0x7` with a carriage return. -/
def crlfRow : FlexRow where
  tag := ['x']
  mode := ['W']
  addr := ['0', 'x', '3', '3', '5', '0', '0', '0', '0', '0']
  digits := ['7']
  crlf := true
  comma_not_mem_tag := comma_not_mem_x
  comma_not_mem_mode := comma_not_mem_w
  comma_not_mem_addr := not_mem_of_all rfl
  digits_ne_nil := List.cons_ne_nil _ _
  digits_hex := isDigit_seven

end FlexRow

/-- The lowest byte text of `crlfRow` is `7` with a carriage return in the co-simulation and `07` in
the testbenches. -/
theorem not_agree : ¬ ∀ r : FlexRow, r.mode = "W".toList → r.Agree := by
  intro hall
  obtain ⟨bytes, -, hcosim, hsource, -⟩ := hall FlexRow.crlfRow rfl
  exact absurd (FlexRow.crlfRow.crlf_eq_false (hcosim.trans hsource.symm)) (by decide)

end ThreeLaSim
