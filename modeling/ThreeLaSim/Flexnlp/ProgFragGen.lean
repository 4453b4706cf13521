import ThreeLaSim.Flexnlp.MaxpTestGen

/-!
# `prog_frag_gen`, mode `r`: a relay program as JSON

The tool turns the rows of a relay file into command entries and stops at the first row whose
fourth field reads `0x0dead`.  The row that ends the file has that value there; but the field
carries an address or a height in every other row.

* `progFragR` — the mode, from the text of the relay file to the entries.
* `RelayProgram` — what `maxp_test_gen` writes: store rows, the pooling row, the end row.
* **`progFragR_iff`** — the entries are the program exactly when no store address and no height is
  `0xdead`, and all of them fit an `int`.
-/

namespace ThreeLaSim

open CText

/-! ## The tool -/

/-- An entry of `command inputs`. -/
structure RelayEntry where
  instrNo : ℕ
  funcRun : Str
  funcId : Str
  dataIn : Str
  dataInY : Str
  dataInX : Str
  poolSizeY : Str
  poolSizeX : Str
  strideY : Str
  strideX : Str
  deriving DecidableEq

/-- Eight fields that end at a comma, and the rest of the line. -/
def relayDelims : List Char := [',', ',', ',', ',', ',', ',', ',', ',', '\n']

/-- The loop over the rows; none where `stoi` throws. -/
def progFragLoop (commandV : List RelayEntry) (instrCntr : ℕ) :
    List (List Str) → Option (List RelayEntry)
  | [] => some commandV
  | [_, funcRun, funcId, dataInY, dataInX, poolY, poolX, strideY, strideX] :: rows => do
      let y ← stoi 16 dataInY
      if y = 0x0dead then return commandV
      else if funcId = "1".toList then
        progFragLoop (commandV ++ [⟨instrCntr, funcRun, funcId, "0".toList, dataInY, dataInX, poolY,
          poolX, strideY, strideX⟩]) (instrCntr + 1) rows
      else if funcId = "2".toList then
        progFragLoop (commandV ++ [⟨instrCntr, funcRun, funcId, dataInX, dataInY, "0".toList, poolY,
          poolX, strideY, strideX⟩]) (instrCntr + 1) rows
      else progFragLoop commandV instrCntr rows
  | _ => none

/-- Mode `r`. -/
def progFragR (fin : Str) : Option (List RelayEntry) := do
  let rows ← readRows relayDelims fin
  progFragLoop [] 0 rows

/-! ## Relay programs -/

/-- A store row: the byte goes to the address. -/
structure RelayStore where
  addr : ℕ
  byteText : Str
  byte_length : byteText.length = 2
  byte_digits : ∀ c ∈ byteText, isDigit 16 c = true

/-- What `maxp_test_gen` writes for `T` timesteps and `nv` vectors. -/
structure RelayProgram where
  numTimesteps : ℕ
  numVectors : ℕ
  stores : List RelayStore

namespace RelayProgram

variable (p : RelayProgram)

/-- The rows of the file. -/
def rows : List Str :=
  p.stores.map (fun s => storeRow "W".toList s.addr s.byteText) ++
    [maxpoolRow p.numTimesteps (p.numVectors * 16), endRow]

/-- The text of the file. -/
def text : Str := p.rows.flatMap (· ++ ['\n'])

/-- The commands in front of the end row. -/
def commands : List RelayCommand :=
  p.stores.map (fun s => .store s.addr (ofDigits 16 s.byteText)) ++
    [.maxpool p.numTimesteps (p.numVectors * 16) "2".toList "1".toList "2".toList "1".toList]

/-- The rows of the program as the simulation reads them. -/
theorem map_relayCommand_rows :
    p.rows.map relayCommand = (p.commands ++ [RelayCommand.finish]).map some := by
  have hstores : ∀ s : RelayStore, relayCommand (storeRow "W".toList s.addr s.byteText) =
      some (.store s.addr (ofDigits 16 s.byteText)) := fun s =>
    relayCommand_storeRow s.addr s.byte_digits
  rw [rows, commands, List.map_append, List.map_append, List.map_append, List.map_map, List.map_map,
    List.append_assoc]
  congr 1
  · exact List.map_congr_left fun s _ => hstores s
  · rw [List.map_cons, List.map_cons, relayCommand_maxpoolRow, relayCommand_endRow]
    rfl

/-- The fields the tool reads. -/
def fieldRows : List (List Str) :=
  p.stores.map (fun s => storeFields s.addr s.byteText) ++
    [maxpoolFields p.numTimesteps (p.numVectors * 16), endFields]

end RelayProgram

/-- Nine fields with commas between them are a row of the file. -/
lemma printRow_relayDelims (a b c d e f g h i : Str) :
    printRow relayDelims [a, b, c, d, e, f, g, h, i] =
      [','].intercalate [a, b, c, d, e, f, g, h, i] ++ ['\n'] := by
  simp [printRow, relayDelims, List.intercalate]

lemma rowOf_relayDelims {a b c d e f g h i : Str} (hcomma : ∀ s ∈ [a, b, c, d, e, f, g, h], ',' ∉ s)
    (hi : '\n' ∉ i) : RowOf relayDelims [a, b, c, d, e, f, g, h, i] := by
  simp only [List.forall_mem_cons, List.not_mem_nil, false_imp_iff, implies_true, and_true]
    at hcomma
  obtain ⟨ha, hb, hc, hd, he, hf, hg, hh⟩ := hcomma
  exact .cons ha (.cons hb (.cons hc (.cons hd (.cons he (.cons hf (.cons hg (.cons hh
    (.cons hi .nil))))))))

namespace RelayProgram

variable (p : RelayProgram)

/-- **The file reads back as its fields.** -/
theorem readRows_text : readRows relayDelims p.text = some p.fieldRows := by
  have hstore : ∀ s : RelayStore, storeRow "W".toList s.addr s.byteText ++ ['\n'] =
      printRow relayDelims (storeFields s.addr s.byteText) := by
    intro s
    rw [storeRow_write, storeFields, printRow_relayDelims]
  have hmaxpool : ∀ y x, maxpoolRow y x ++ ['\n'] = printRow relayDelims (maxpoolFields y x) :=
    fun y x => by rw [maxpoolRow_eq, maxpoolFields, printRow_relayDelims]
  have hend : endRow ++ ['\n'] = printRow relayDelims endFields := by
    rw [endRow_eq, endFields, printRow_relayDelims]
  have htext : p.text = p.fieldRows.flatMap (printRow relayDelims) := by
    rw [text, rows, fieldRows, List.flatMap_append, List.flatMap_append, List.flatMap_map,
      List.flatMap_map]
    simp only [hstore, List.flatMap_cons, hmaxpool, hend, List.flatMap_nil]
  rw [htext]
  refine readRows_printRows (by decide) fun row hrow => ?_
  rcases List.mem_append.mp hrow with hrow | hrow
  · obtain ⟨s, -, rfl⟩ := List.mem_map.mp hrow
    refine rowOf_relayDelims ?_ (by decide)
    simp only [List.forall_mem_cons, List.not_mem_nil, false_imp_iff, implies_true, and_true]
    exact ⟨by decide, by decide, by decide, comma_not_mem_hexText (isDigit_toDigits s.addr),
      comma_not_mem_hexText s.byte_digits, by decide, by decide, by decide⟩
  · simp only [List.mem_cons, List.not_mem_nil, or_false] at hrow
    rcases hrow with rfl | rfl
    · refine rowOf_relayDelims ?_ (by decide)
      simp only [List.forall_mem_cons, List.not_mem_nil, false_imp_iff, implies_true, and_true]
      exact ⟨by decide, by decide, by decide, comma_not_mem_hexText (isDigit_toDigits _),
        comma_not_mem_hexText (isDigit_toDigits _), by decide, by decide, by decide⟩
    · exact rowOf_relayDelims (by decide) (by decide)

end RelayProgram

/-! ## The entries -/

/-- The entry of a store row. -/
def storeEntry (instrCntr : ℕ) (s : RelayStore) : RelayEntry where
  instrNo := instrCntr
  funcRun := "1".toList
  funcId := "2".toList
  dataIn := hexText ('0' :: s.byteText)
  dataInY := hexText ('0' :: Nat.toDigits 16 s.addr)
  dataInX := "0".toList
  poolSizeY := "0".toList
  poolSizeX := "0".toList
  strideY := "0".toList
  strideX := "0".toList

/-- The entry of the pooling row. -/
def maxpoolEntry (instrCntr y x : ℕ) : RelayEntry where
  instrNo := instrCntr
  funcRun := "1".toList
  funcId := "1".toList
  dataIn := "0".toList
  dataInY := hexText ('0' :: Nat.toDigits 16 y)
  dataInX := hexText ('0' :: Nat.toDigits 16 x)
  poolSizeY := "2".toList
  poolSizeX := "1".toList
  strideY := "2".toList
  strideX := "1".toList

/-- The value is not taken for the end of the file, and fits an `int`. -/
def Ordinary (n : ℕ) : Prop := n ≠ 0xdead ∧ n < 2 ^ 31

lemma stoi_zero_toDigits (n : ℕ) : stoi 16 (hexText ('0' :: Nat.toDigits 16 n)) =
    if n < 2 ^ 31 then some (n : ℤ) else none := by
  have hdigits : ∀ c ∈ '0' :: Nat.toDigits 16 n, isDigit 16 c = true :=
    List.forall_mem_cons.mpr ⟨by decide, isDigit_toDigits n⟩
  rw [stoi_hexText (List.cons_ne_nil _ _) hdigits, ofDigits_cons_zero,
    ofDigits_toDigits (by decide) (by decide)]

/-- One turn of the loop on a store row. -/
lemma progFragLoop_store (commandV : List RelayEntry) (n : ℕ) (s : RelayStore)
    (rows : List (List Str)) :
    progFragLoop commandV n (storeFields s.addr s.byteText :: rows) =
      if s.addr < 2 ^ 31 then
        if s.addr = 0xdead then some commandV
        else progFragLoop (commandV ++ [storeEntry n s]) (n + 1) rows
      else none := by
  have hid : "2".toList ≠ "1".toList := by decide
  have hdead : ((s.addr : ℤ) = 0x0dead) ↔ s.addr = 0xdead := by omega
  rw [storeFields, progFragLoop, stoi_zero_toDigits, if_neg hid, if_pos rfl]
  by_cases hlt : s.addr < 2 ^ 31
  · rw [if_pos hlt, if_pos hlt, Option.bind_eq_bind, Option.bind_some]
    by_cases hd : s.addr = 0xdead
    · rw [if_pos (hdead.mpr hd), if_pos hd]
      rfl
    · rw [if_neg (fun h => hd (hdead.mp h)), if_neg hd]
      rfl
  · rw [if_neg hlt, if_neg hlt]
    rfl

/-- The loop on the last two rows. -/
lemma progFragLoop_tail (commandV : List RelayEntry) (n y x : ℕ) :
    progFragLoop commandV n [maxpoolFields y x, endFields] =
      if y < 2 ^ 31 then
        if y = 0xdead then some commandV else some (commandV ++ [maxpoolEntry n y x])
      else none := by
  have hdead : ((y : ℤ) = 0x0dead) ↔ y = 0xdead := by omega
  have hend : stoi 16 "0x0000dead".toList = some 0xdead := by decide
  rw [maxpoolFields, progFragLoop, stoi_zero_toDigits, if_pos rfl]
  by_cases hlt : y < 2 ^ 31
  · rw [if_pos hlt, if_pos hlt, Option.bind_eq_bind, Option.bind_some]
    by_cases hd : y = 0xdead
    · rw [if_pos (hdead.mpr hd), if_pos hd]
      rfl
    · rw [if_neg (fun h => hd (hdead.mp h)), if_neg hd, endFields, progFragLoop, hend]
      rfl
  · rw [if_neg hlt, if_neg hlt]
    rfl

/-- The entries of the stores, numbered from `n`. -/
def storeEntries (n : ℕ) (stores : List RelayStore) : List RelayEntry :=
  (stores.zipIdx n).map fun q => storeEntry q.2 q.1

lemma storeEntries_cons (n : ℕ) (s : RelayStore) (stores : List RelayStore) :
    storeEntries n (s :: stores) = storeEntry n s :: storeEntries (n + 1) stores := by
  simp [storeEntries, List.zipIdx_cons]

/-- The field rows of a program with these stores. -/
def storeTail (stores : List RelayStore) (y x : ℕ) : List (List Str) :=
  stores.map (fun s => storeFields s.addr s.byteText) ++
    [maxpoolFields y x, endFields]

/-- With ordinary values the loop makes an entry of every row but the last. -/
lemma progFragLoop_of_ordinary {y : ℕ} (hy : Ordinary y) (x : ℕ) :
    ∀ (stores : List RelayStore) (commandV : List RelayEntry) (n : ℕ),
      (∀ s ∈ stores, Ordinary s.addr) →
        progFragLoop commandV n (storeTail stores y x) = some (commandV ++
          (storeEntries n stores ++ [maxpoolEntry (n + stores.length) y x]))
  | [], commandV, n, _ => by
      rw [storeTail, List.map_nil, List.nil_append, progFragLoop_tail, if_pos hy.2, if_neg hy.1]
      rfl
  | s :: stores, commandV, n, h => by
      obtain ⟨hs, htail⟩ := List.forall_mem_cons.mp h
      have ih := progFragLoop_of_ordinary hy x stores (commandV ++ [storeEntry n s]) (n + 1) htail
      rw [storeTail] at ih
      rw [storeTail, List.map_cons, List.cons_append, progFragLoop_store, if_pos hs.2, if_neg hs.1,
        ih, storeEntries_cons, List.length_cons, Nat.add_right_comm, ← Nat.add_assoc]
      simp

/-- A full list of entries means that no value ended the loop early. -/
lemma ordinary_of_length {y x : ℕ} {stores : List RelayStore} {commandV entries : List RelayEntry}
    {n : ℕ} (h : progFragLoop commandV n (storeTail stores y x) = some entries)
    (hlen : entries.length = commandV.length + stores.length + 1) :
    (∀ s ∈ stores, Ordinary s.addr) ∧ Ordinary y := by
  induction stores generalizing commandV n with
  | nil =>
      rw [storeTail, List.map_nil, List.nil_append, progFragLoop_tail] at h
      refine ⟨by simp, ?_⟩
      split_ifs at h with hlt hd
      · obtain rfl := Option.some.inj h
        simp at hlen
      · exact ⟨hd, hlt⟩
  | cons s stores ih =>
      rw [storeTail, List.map_cons, List.cons_append, progFragLoop_store, ← storeTail] at h
      split_ifs at h with hlt hd
      · obtain rfl := Option.some.inj h
        rw [List.length_cons] at hlen
        omega
      · have hlen' : entries.length =
            (commandV ++ [storeEntry n s]).length + stores.length + 1 := by
          rw [hlen, List.length_append, List.length_cons, List.length_singleton]
          omega
        obtain ⟨hstores, hy⟩ := ih h hlen'
        exact ⟨List.forall_mem_cons.mpr ⟨⟨hd, hlt⟩, hstores⟩, hy⟩

/-! ## Preservation -/

/-- The command an entry stands for. -/
def RelayEntry.command (e : RelayEntry) : Option RelayCommand :=
  if e.funcId = "2".toList then do
    let addr ← hexValue e.dataInY
    let byte ← hexValue e.dataIn
    return .store addr byte
  else if e.funcId = "1".toList then do
    let height ← hexValue e.dataInY
    let width ← hexValue e.dataInX
    return .maxpool height width e.poolSizeY e.poolSizeX e.strideY e.strideX
  else none

lemma command_storeEntry (n : ℕ) (s : RelayStore) :
    (storeEntry n s).command = some (.store s.addr (ofDigits 16 s.byteText)) := by
  unfold RelayEntry.command storeEntry
  rw [if_pos rfl]
  simp only [hexValue_zero_toDigits, hexValue_zero s.byte_digits, Option.bind_eq_bind,
    Option.bind_some]
  rfl

lemma command_maxpoolEntry (n y x : ℕ) : (maxpoolEntry n y x).command =
    some (.maxpool y x "2".toList "1".toList "2".toList "1".toList) := by
  have hid : "1".toList ≠ "2".toList := by decide
  unfold RelayEntry.command maxpoolEntry
  rw [if_neg hid, if_pos rfl]
  simp only [hexValue_zero_toDigits, Option.bind_eq_bind, Option.bind_some]
  rfl

/-- The entries are the program: they are numbered from zero, and each is the command of its row. -/
structure Preserves (p : RelayProgram) (entries : List RelayEntry) : Prop where
  numbers : entries.map (·.instrNo) = List.range (p.stores.length + 1)
  commands : entries.map (·.command) = p.commands.map some

/-- **When mode `r` preserves a relay program.** -/
theorem progFragR_iff (p : RelayProgram) :
    (∃ entries, progFragR p.text = some entries ∧ Preserves p entries) ↔
      (∀ s ∈ p.stores, Ordinary s.addr) ∧ Ordinary p.numTimesteps := by
  have hrun : progFragR p.text =
      progFragLoop [] 0 (storeTail p.stores p.numTimesteps (p.numVectors * 16)) := by
    rw [progFragR, p.readRows_text]
    rfl
  rw [hrun]
  constructor
  · rintro ⟨entries, hentries, hpres⟩
    refine ordinary_of_length hentries ?_
    have hlen := congrArg List.length hpres.numbers
    rw [List.length_map, List.length_range] at hlen
    rw [hlen, List.length_nil, Nat.zero_add]
  · rintro ⟨hstores, hy⟩
    refine ⟨_, progFragLoop_of_ordinary hy _ p.stores [] 0 hstores, ?_, ?_⟩
    · have hnumbers : (storeEntries 0 p.stores).map (·.instrNo) = List.range p.stores.length := by
        rw [storeEntries, List.map_map, List.range_eq_range', ← List.zipIdx_map_snd 0 p.stores]
        rfl
      rw [List.nil_append, List.map_append, hnumbers, List.range_succ, Nat.zero_add]
      rfl
    · have hcommands : (storeEntries 0 p.stores).map (·.command) =
          p.stores.map fun s => some (.store s.addr (ofDigits 16 s.byteText)) := by
        conv_rhs => rw [← List.zipIdx_map_fst 0 p.stores, List.map_map]
        rw [storeEntries, List.map_map]
        exact List.map_congr_left fun q _ => command_storeEntry q.2 q.1
      rw [List.nil_append, List.map_append, hcommands, RelayProgram.commands, List.map_append,
        List.map_map, List.map_cons, command_maxpoolEntry]
      rfl

/-- A program whose one store goes to the address that ends the file. -/
def deadProgram : RelayProgram where
  numTimesteps := 64
  numVectors := 64
  stores := [⟨0xdead, ['0', '0'], rfl, List.all_eq_true.mp (by decide)⟩]

/-- The address is one of the tensor's, and the program is lost from there on. -/
theorem progFragR_dead : (∀ s ∈ deadProgram.stores,
      s.addr < 16 * deadProgram.numTimesteps * deadProgram.numVectors) ∧
    ¬ ∃ entries, progFragR deadProgram.text = some entries ∧ Preserves deadProgram entries := by
  refine ⟨by decide, ?_⟩
  rintro ⟨entries, hentries, hpres⟩
  have hrun : progFragR deadProgram.text = some [] := by
    rw [progFragR, deadProgram.readRows_text, Option.bind_eq_bind, Option.bind_some,
      RelayProgram.fieldRows, deadProgram, List.map_cons, List.cons_append, progFragLoop_store,
      if_pos (by decide), if_pos rfl]
  obtain rfl := Option.some.inj (hrun.symm.trans hentries)
  exact absurd (congrArg List.length hpres.numbers) (by decide)

/-! ## The program of a trace -/

/-- The stores of a kept row placed at `addrOutInt`. -/
def TraceRow.relayStores (r : TraceRow) (addrOutInt : ℕ) : List RelayStore :=
  (List.range 16).map fun j =>
    { addr := addrOutInt + j
      byteText := r.byteText j
      byte_length := r.length_byteText j
      byte_digits := r.byteText_digits j }

/-- The program that `maxp_test_gen` writes for a trace. -/
def relayProgram (T nv : ℕ) (trace : List TraceRow) : RelayProgram where
  numTimesteps := T
  numVectors := nv
  stores := (accepted trace).zipIdx.flatMap fun q => q.1.relayStores (maxpRelayAddr nv q.2)

/-- The file of the generator is a relay program, when it kept only writes. -/
theorem relayProgram_rows (T nv : ℕ) {trace : List TraceRow}
    (hwrite : ∀ r ∈ accepted trace, r.write = true) : (relayProgram T nv trace).rows =
      placedRows nv 0 (accepted trace) ++ [maxpoolRow T (nv * 16), endRow] := by
  rw [RelayProgram.rows, relayProgram, placedRows, List.map_flatMap]
  congr 1
  refine List.flatMap_congr fun q hq => ?_
  have hmode : q.1.mode = "W".toList := by
    rw [TraceRow.mode, hwrite _ (List.fst_mem_of_mem_zipIdx hq)]
    rfl
  rw [TraceRow.relayStores, TraceRow.rows, List.map_map, hmode]
  rfl

end ThreeLaSim
