import ThreeLaSim.Core.BlockStore
import ThreeLaSim.Core.HexWord
import ThreeLaSim.Flexnlp.AddrMap

/-!
# `maxp_test_gen`: a relay stimulus from a flexnlp command trace

The generator reads the flexnlp trace, keeps the rows whose address lies in the window of the
large buffer and writes sixteen relay store rows for each, at the place the address map gives for
the *number* of rows kept so far.  The large buffer itself is filled by address.

* `maxpTestGen` — the program, from the text of the trace to the rows of the relay file.
* `flexMem`, `relayMem` — the large buffer after the trace, the relay memory after the file.
* **`maxpTestGen_eq`** — the file written for a trace.
* **`refines_iff`** — the two memories agree along the address map exactly when the rows in the
  window are writes below its end that come in the order of their addresses, up to rows with the
  same data.
-/

namespace ThreeLaSim

open CText BlockStore

/-! ## The program -/

/-- `temp`, `mode` and `addr_in` end at a comma, `data_in` at the end of the line. -/
def traceDelims : List Char := [',', ',', ',', '\n']

/-- `addr_min`. -/
def addrMin : ℕ := 0x33500000

/-- `addr_max`. -/
def addrMax : ℕ := 0x33600000

/-- `data_format`: the last 32 digits of the data, filled up with zeros. -/
def dataFormat (dataIn : Str) : Option Str :=
  if dataIn.length ≤ 34 then
    (substrFrom dataIn 2).map (List.replicate (34 - dataIn.length) '0' ++ ·)
  else substrFrom dataIn (dataIn.length - 32)

/-- The row of one byte.  Only its first three fields depend on the mode. -/
def storeRow (mode : Str) (addrOutIntByte : ℕ) (byte : Str) : Str :=
  (if mode = "W".toList then "t,1,2,0x0".toList else []) ++
    (Nat.toDigits 16 addrOutIntByte ++ (",0x0".toList ++ (byte ++ ",0,0,0,0".toList)))

/-- The sixteen rows of one vector. -/
def storeRows (mode : Str) (addrOutInt : ℕ) (dataFormat : Str) : Option (List Str) :=
  (List.range 16).mapM fun j => do
    let byte ← substr dataFormat (30 - 2 * j) 2
    return storeRow mode (addrOutInt + j) byte

/-- The row that starts the max pooling. -/
def maxpoolRow (relayMatrixY relayMatrixX : ℕ) : Str :=
  "t,1,1,0x0".toList ++ (Nat.toDigits 16 relayMatrixY ++ (",0x0".toList ++
    (Nat.toDigits 16 relayMatrixX ++ ",2,1,2,1".toList)))

/-- The row that ends the file. -/
def endRow : Str := "2,0,3,0x0000dead,0x0,0,0,0,0".toList

/-- The counter `i` and the rows written. -/
structure MaxpState where
  i : ℕ
  out : List Str

/-- One turn of the loop.  `stoi` throws on an address that does not fit an `int`, and the address
computed from `i` is an `int` as well. -/
def maxpStep (numVectors : ℕ) (st : MaxpState) : List Str → Option MaxpState
  | [_, mode, addrIn, dataIn] => do
      let addrInInt ← stoi 16 addrIn
      if addrInInt < addrMin ∨ addrInInt > addrMax then return st
      else
        let addrOutInt := maxpRelayAddr numVectors st.i
        guard (addrOutInt < 2 ^ 31)
        let data ← dataFormat dataIn
        let rows ← storeRows mode addrOutInt data
        return { i := st.i + 1, out := st.out ++ rows }
  | _ => none

/-- The rows written for a trace; `group_size` is an `int`. -/
def maxpTestGen (numTimesteps numVectors : ℕ) (fin : Str) : Option (List Str) := do
  guard (16 * numVectors < 2 ^ 31)
  let rows ← readRows traceDelims fin
  let st ← rows.foldlM (maxpStep numVectors) ⟨0, []⟩
  return st.out ++ [maxpoolRow numTimesteps (numVectors * 16), endRow]

/-! ## Traces -/

/-- A row of a flexnlp command trace: a read or a write of a sixteen-byte-aligned address. -/
structure TraceRow where
  tag : Str
  write : Bool
  addrDigits : Str
  dataDigits : Str
  comma_not_mem_tag : ',' ∉ tag
  addr_ne_nil : addrDigits ≠ []
  addr_digits : ∀ c ∈ addrDigits, isDigit 16 c = true
  aligned : 16 ∣ ofDigits 16 addrDigits
  data_ne_nil : dataDigits ≠ []
  data_length : dataDigits.length ≤ 33
  data_digits : ∀ c ∈ dataDigits, isDigit 16 c = true

namespace TraceRow

variable (r : TraceRow)

/-- The mode as printed. -/
def mode : Str := if r.write then "W".toList else "R".toList

/-- The four fields of the row. -/
def fields : List Str := [r.tag, r.mode, hexText r.addrDigits, hexText r.dataDigits]

/-- The address. -/
def addr : ℕ := ofDigits 16 r.addrDigits

/-- The 128 bits of the data. -/
def data : ℕ := ofDigits 16 r.dataDigits % 2 ^ 128

/-- Byte `j` of the data, in little-endian order. -/
def byte (j : ℕ) : ℕ := r.data / 256 ^ j % 256

/-- The vector of the large buffer the row addresses. -/
def vector : ℕ := (r.addr - addrMin) / 16

/-- The row is not skipped. -/
def Accepted : Prop := addrMin ≤ r.addr ∧ r.addr ≤ addrMax

/-- The row changes the large buffer. -/
def Stores : Prop := r.write = true ∧ addrMin ≤ r.addr ∧ r.addr < addrMax

instance : DecidablePred Accepted := fun _ => inferInstanceAs (Decidable (_ ∧ _))

instance : DecidablePred Stores := fun _ => inferInstanceAs (Decidable (_ ∧ _ ∧ _))

end TraceRow

/-- The text of a trace. -/
def traceText (trace : List TraceRow) : Str :=
  (trace.map TraceRow.fields).flatMap (printRow traceDelims)

/-! ## The two memories -/

/-- The large buffer after a trace: every write in the window stores its sixteen bytes. -/
def flexMem (trace : List TraceRow) : Mem ℕ :=
  trace.foldl (fun m r => if r.Stores then storeBlock m r.addr 16 r.byte else m) fun _ => none

/-- A relay command, as the simulation reads a row of nine fields; it takes any function but `1` and
`2` for the end of the file, which the file marks with `3`. -/
inductive RelayCommand
  | store (addr byte : ℕ)
  | maxpool (height width : ℕ) (poolY poolX strideY strideX : Str)
  | finish
  deriving DecidableEq, Repr

/-- The command of a row; none for a row that is none. -/
def relayCommand (row : Str) : Option RelayCommand :=
  match row.splitOn ',' with
  | [_, _, funcId, dataInY, dataInX, poolY, poolX, strideY, strideX] => do
      let y ← hexValue dataInY
      let x ← hexValue dataInX
      if funcId = "2".toList then return .store y x
      else if funcId = "1".toList then return .maxpool y x poolY poolX strideY strideX
      else if funcId = "3".toList then return .finish
      else none
  | _ => none

/-- What a row stores. -/
def relayWrite (m : Mem ℕ) (row : Str) : Mem ℕ :=
  match relayCommand row with
  | some (.store addr byte) => Function.update m addr (some byte)
  | _ => m

/-- Relay memory after every store row stored its byte. -/
def relayMem (rows : List Str) : Mem ℕ := rows.foldl relayWrite fun _ => none

/-! ## Rows -/

/-- The nine fields of a store row. -/
def storeFields (addr : ℕ) (byte : Str) : List Str :=
  ["t".toList, "1".toList, "2".toList, hexText ('0' :: Nat.toDigits 16 addr),
    hexText ('0' :: byte), "0".toList, "0".toList, "0".toList, "0".toList]

lemma toList_hexSep : ",0x0".toList = [',', '0', 'x', '0'] := by decide

lemma toList_zeros : ",0,0,0,0".toList = [',', '0', ',', '0', ',', '0', ',', '0'] := by decide

lemma storeRow_write (addr : ℕ) (byte : Str) :
    storeRow "W".toList addr byte = [','].intercalate (storeFields addr byte) := by
  have hhead : "t,1,2,0x0".toList = ['t', ',', '1', ',', '2', ',', '0', 'x', '0'] := by decide
  have ht : "t".toList = ['t'] := by decide
  have h0 : "0".toList = ['0'] := by decide
  have h1 : "1".toList = ['1'] := by decide
  have h2 : "2".toList = ['2'] := by decide
  unfold storeRow storeFields
  rw [if_pos rfl, hhead, toList_hexSep, toList_zeros, ht, h0, h1, h2]
  simp [List.intercalate, hexText]

/-- Without the prefix six fields are left. -/
lemma storeRow_read (addr : ℕ) (byte : Str) : storeRow "R".toList addr byte = [','].intercalate
    [Nat.toDigits 16 addr, hexText ('0' :: byte), "0".toList, "0".toList, "0".toList,
      "0".toList] := by
  have hmode : "R".toList ≠ "W".toList := by decide
  have h0 : "0".toList = ['0'] := by decide
  unfold storeRow
  rw [if_neg hmode, toList_hexSep, toList_zeros, h0]
  simp [List.intercalate, hexText]

/-- The nine fields of the row that starts the pooling. -/
def maxpoolFields (y x : ℕ) : List Str :=
  ["t".toList, "1".toList, "1".toList, hexText ('0' :: Nat.toDigits 16 y),
    hexText ('0' :: Nat.toDigits 16 x), "2".toList, "1".toList, "2".toList, "1".toList]

lemma maxpoolRow_eq (y x : ℕ) : maxpoolRow y x = [','].intercalate (maxpoolFields y x) := by
  have hhead : "t,1,1,0x0".toList = ['t', ',', '1', ',', '1', ',', '0', 'x', '0'] := by decide
  have htail : ",2,1,2,1".toList = [',', '2', ',', '1', ',', '2', ',', '1'] := by decide
  have ht : "t".toList = ['t'] := by decide
  have h1 : "1".toList = ['1'] := by decide
  have h2 : "2".toList = ['2'] := by decide
  unfold maxpoolRow maxpoolFields
  rw [hhead, toList_hexSep, htail, ht, h1, h2]
  simp [List.intercalate, hexText]

/-- The nine fields of the row that ends the file. -/
def endFields : List Str :=
  ["2".toList, "0".toList, "3".toList, "0x0000dead".toList, "0x0".toList, "0".toList, "0".toList,
    "0".toList, "0".toList]

lemma endRow_eq : endRow = [','].intercalate endFields := by decide

/-- No field with hexadecimal digits holds a comma. -/
lemma comma_not_mem_digits {ds : Str} (h : ∀ c ∈ ds, isDigit 16 c = true) : ',' ∉ ds :=
  not_mem_digits h (by decide)

lemma comma_not_mem_hexText {ds : Str} (h : ∀ c ∈ ds, isDigit 16 c = true) :
    ',' ∉ hexText ('0' :: ds) :=
  not_mem_hexText (List.forall_mem_cons.mpr ⟨by decide, h⟩) (by decide) (by decide)

lemma isDigit_toDigits (n : ℕ) : ∀ c ∈ Nat.toDigits 16 n, isDigit 16 c = true :=
  isDigit_of_mem_toDigits (by decide) (by decide) n

lemma hexValue_zero {ds : Str} (h : ∀ c ∈ ds, isDigit 16 c = true) :
    hexValue (hexText ('0' :: ds)) = some (ofDigits 16 ds) := by
  have hdigits : ∀ c ∈ '0' :: ds, isDigit 16 c = true := List.forall_mem_cons.mpr ⟨by decide, h⟩
  rw [hexValue_hexText (List.cons_ne_nil _ _) hdigits, ofDigits_cons_zero]

lemma hexValue_zero_toDigits (n : ℕ) :
    hexValue (hexText ('0' :: Nat.toDigits 16 n)) = some n := by
  rw [hexValue_zero (isDigit_toDigits n), ofDigits_toDigits (by decide) (by decide)]

lemma relayCommand_storeRow (addr : ℕ) {byte : Str} (h : ∀ c ∈ byte, isDigit 16 c = true) :
    relayCommand (storeRow "W".toList addr byte) = some (.store addr (ofDigits 16 byte)) := by
  have hsplit : (storeRow "W".toList addr byte).splitOn ',' = storeFields addr byte := by
    rw [storeRow_write]
    refine List.splitOn_intercalate ',' ?_ (List.cons_ne_nil _ _)
    simp only [storeFields, List.forall_mem_cons, List.not_mem_nil, false_imp_iff, implies_true,
      and_true]
    exact ⟨by decide, by decide, by decide, comma_not_mem_hexText (isDigit_toDigits addr),
      comma_not_mem_hexText h, by decide, by decide, by decide, by decide⟩
  unfold relayCommand
  rw [hsplit]
  unfold storeFields
  simp only [hexValue_zero h, hexValue_zero_toDigits, Option.bind_eq_bind, Option.bind_some]
  rfl

lemma relayCommand_read (addr : ℕ) {byte : Str} (h : ∀ c ∈ byte, isDigit 16 c = true) :
    relayCommand (storeRow "R".toList addr byte) = none := by
  have hsplit : (storeRow "R".toList addr byte).splitOn ',' = [Nat.toDigits 16 addr,
      hexText ('0' :: byte), "0".toList, "0".toList, "0".toList, "0".toList] := by
    rw [storeRow_read]
    refine List.splitOn_intercalate ',' ?_ (List.cons_ne_nil _ _)
    simp only [List.forall_mem_cons, List.not_mem_nil, false_imp_iff, implies_true, and_true]
    exact ⟨comma_not_mem_digits (isDigit_toDigits addr), comma_not_mem_hexText h, by decide,
      by decide, by decide, by decide⟩
  unfold relayCommand
  rw [hsplit]

lemma relayCommand_maxpoolRow (y x : ℕ) : relayCommand (maxpoolRow y x) =
    some (.maxpool y x "2".toList "1".toList "2".toList "1".toList) := by
  have hsplit : (maxpoolRow y x).splitOn ',' = maxpoolFields y x := by
    rw [maxpoolRow_eq]
    refine List.splitOn_intercalate ',' ?_ (List.cons_ne_nil _ _)
    simp only [maxpoolFields, List.forall_mem_cons, List.not_mem_nil, false_imp_iff, implies_true,
      and_true]
    exact ⟨by decide, by decide, by decide, comma_not_mem_hexText (isDigit_toDigits y),
      comma_not_mem_hexText (isDigit_toDigits x), by decide, by decide, by decide, by decide⟩
  unfold relayCommand
  rw [hsplit]
  unfold maxpoolFields
  simp only [hexValue_zero_toDigits, Option.bind_eq_bind, Option.bind_some]
  rfl

lemma relayCommand_endRow : relayCommand endRow = some .finish := by decide

/-! ## One row of the trace -/

/-- **Formatting cuts a word of sixteen bytes** out of what follows the `0x`, digits or not. -/
theorem dataFormat_hexText (s : Str) : dataFormat (hexText s) = some (hexWord 16 s) := by
  unfold dataFormat hexWord substrFrom
  rw [hexText, List.length_cons, List.length_cons]
  by_cases h : s.length ≤ 32
  · rw [if_pos (by omega), if_pos (by omega), Nat.sub_eq_zero_of_le h, List.leftpad]
    have hpad : 34 - (s.length + 1 + 1) = 2 * 16 - s.length := by omega
    simp [hpad]
  · have hdrop : s.length + 1 + 1 - 32 = s.length - 2 * 16 + 1 + 1 := by omega
    rw [if_neg (by omega), if_pos (by omega), hdrop, List.leftpad]
    have hfull : 2 * 16 - (s.drop (s.length - 2 * 16)).length = 0 := by
      rw [List.length_drop]
      omega
    rw [hfull]
    rfl

namespace TraceRow

variable (r : TraceRow)

/-- The data as 32 digits. -/
def formatted : Str := (r.dataDigits.drop (r.dataDigits.length - 32)).leftpad 32 '0'

/-- The two digits of byte `j`. -/
def byteText (j : ℕ) : Str := (r.formatted.drop (30 - 2 * j)).take 2

/-- The rows written for the row when it is placed at `addrOutInt`. -/
def rows (addrOutInt : ℕ) : List Str :=
  (List.range 16).map fun j => storeRow r.mode (addrOutInt + j) (r.byteText j)

lemma dataFormat_eq : dataFormat (hexText r.dataDigits) = some r.formatted :=
  dataFormat_hexText r.dataDigits

lemma length_byteText (j : ℕ) : (r.byteText j).length = 2 :=
  length_hexByte (n := 16) (by decide) r.dataDigits j

lemma byteText_digits (j : ℕ) : ∀ c ∈ r.byteText j, isDigit 16 c = true :=
  hexByte_digits (n := 16) r.data_digits j

/-- The two digits are those of the byte. -/
lemma ofDigits_byteText {j : ℕ} (hj : j < 16) : ofDigits 16 (r.byteText j) = r.byte j := by
  have hbyte : ofDigits 16 (r.byteText j) = ofDigits 16 r.dataDigits / 256 ^ j % 256 :=
    ofDigits_hexByte r.data_digits hj
  have hword : (2 : ℕ) ^ 128 = 256 ^ 16 := by norm_num
  rw [hbyte, byte, data, hword, byte_mod hj]

lemma storeRows_eq (addrOutInt : ℕ) :
    storeRows r.mode addrOutInt r.formatted = some (r.rows addrOutInt) := by
  unfold storeRows rows
  have hbyte : ∀ j, substr r.formatted (30 - 2 * j) 2 = some (r.byteText j) :=
    substr_hexWord 16 r.dataDigits
  simp only [hbyte, Option.bind_eq_bind, Option.bind_some]
  exact List.mapM_pure

/-- The address fits an `int` exactly when `stoi` accepts it. -/
lemma stoi_addr : stoi 16 (hexText r.addrDigits) =
    if r.addr < 2 ^ 31 then some (r.addr : ℤ) else none :=
  stoi_hexText r.addr_ne_nil r.addr_digits

/-- **One turn of the loop.** -/
theorem maxpStep_fields (nv : ℕ) (st st' : MaxpState) : maxpStep nv st r.fields = some st' ↔
    r.addr < 2 ^ 31 ∧ (if r.Accepted then maxpRelayAddr nv st.i < 2 ^ 31 ∧
      st' = ⟨st.i + 1, st.out ++ r.rows (maxpRelayAddr nv st.i)⟩ else st' = st) := by
  have hskip : ((r.addr : ℤ) < addrMin ∨ (r.addr : ℤ) > addrMax) ↔ ¬ r.Accepted := by
    rw [Accepted]
    omega
  unfold maxpStep fields
  simp only [stoi_addr, dataFormat_eq, storeRows_eq, Option.bind_eq_bind, Option.bind_some]
  by_cases haddr : r.addr < 2 ^ 31
  · rw [if_pos haddr, Option.bind_some, and_iff_right haddr]
    by_cases hacc : r.Accepted
    · rw [if_neg (by rwa [hskip, not_not]), if_pos hacc, guard]
      by_cases hfit : maxpRelayAddr nv st.i < 2 ^ 31
      · rw [if_pos hfit, and_iff_right hfit, eq_comm (a := st')]
        exact Option.some_inj
      · rw [if_neg hfit]
        exact ⟨fun h => (by cases h), fun h => absurd h.1 hfit⟩
    · rw [if_pos (hskip.mpr hacc), if_neg hacc, eq_comm (a := st')]
      exact Option.some_inj
  · rw [if_neg haddr]
    exact ⟨fun h => (by cases h), fun h => absurd h.1 haddr⟩

end TraceRow

/-! ## A whole trace -/

/-- The rows of a trace that the generator keeps. -/
def accepted (trace : List TraceRow) : List TraceRow := trace.filter (·.Accepted)

/-- The rows written for kept rows, the first of which is counted `i`. -/
def placedRows (nv i : ℕ) (acc : List TraceRow) : List Str :=
  (acc.zipIdx i).flatMap fun p => p.1.rows (maxpRelayAddr nv p.2)

lemma placedRows_cons (nv i : ℕ) (r : TraceRow) (acc : List TraceRow) :
    placedRows nv i (r :: acc) = r.rows (maxpRelayAddr nv i) ++ placedRows nv (i + 1) acc := by
  simp [placedRows, List.zipIdx_cons]

/-- **The loop over a trace.** -/
theorem foldlM_maxpStep (nv : ℕ) : ∀ (trace : List TraceRow) (st st' : MaxpState),
    (trace.map TraceRow.fields).foldlM (maxpStep nv) st = some st' ↔
      (∀ r ∈ trace, r.addr < 2 ^ 31) ∧
      (∀ i < (accepted trace).length, maxpRelayAddr nv (st.i + i) < 2 ^ 31) ∧
      st' = ⟨st.i + (accepted trace).length, st.out ++ placedRows nv st.i (accepted trace)⟩
  | [], st, st' => by
      simp only [List.map_nil, List.foldlM_nil, Option.pure_def, Option.some_inj]
      simp [accepted, placedRows, eq_comm (a := st)]
  | r :: trace, st, st' => by
      have ih := foldlM_maxpStep nv trace
      rw [List.map_cons, List.foldlM_cons, Option.bind_eq_bind, Option.bind_eq_some_iff,
        List.forall_mem_cons, accepted]
      simp only [r.maxpStep_fields, ih]
      by_cases hacc : r.Accepted
      · have hfilter : (r :: trace).filter (·.Accepted) = r :: accepted trace :=
          List.filter_cons_of_pos (decide_eq_true hacc)
        have hcount : (∀ i < (accepted trace).length + 1, maxpRelayAddr nv (st.i + i) < 2 ^ 31) ↔
            maxpRelayAddr nv st.i < 2 ^ 31 ∧
              ∀ i < (accepted trace).length, maxpRelayAddr nv (st.i + 1 + i) < 2 ^ 31 := by
          rw [Nat.forall_lt_succ_left]
          simp only [Nat.add_zero, Nat.add_assoc, Nat.add_comm 1]
        have hend : st.i + ((accepted trace).length + 1) = st.i + 1 + (accepted trace).length := by
          omega
        rw [hfilter, List.length_cons, hcount, placedRows_cons, hend, ← List.append_assoc]
        simp only [if_pos hacc]
        constructor
        · rintro ⟨st₁, ⟨haddr, hfit, rfl⟩, haddrs, hfits, hst⟩
          exact ⟨⟨haddr, haddrs⟩, ⟨hfit, hfits⟩, hst⟩
        · rintro ⟨⟨haddr, haddrs⟩, ⟨hfit, hfits⟩, hst⟩
          exact ⟨_, ⟨haddr, hfit, rfl⟩, haddrs, hfits, hst⟩
      · have hfilter : (r :: trace).filter (·.Accepted) = accepted trace :=
          List.filter_cons_of_neg (by simpa using hacc)
        rw [hfilter]
        simp only [if_neg hacc]
        constructor
        · rintro ⟨st₁, ⟨haddr, rfl⟩, haddrs, hfits, hst⟩
          exact ⟨⟨haddr, haddrs⟩, hfits, hst⟩
        · rintro ⟨⟨haddr, haddrs⟩, hfits, hst⟩
          exact ⟨st, ⟨haddr, rfl⟩, haddrs, hfits, hst⟩

/-- The text of a trace reads back as its fields. -/
lemma readRows_traceText (trace : List TraceRow) :
    readRows traceDelims (traceText trace) = some (trace.map TraceRow.fields) := by
  refine readRows_printRows (by decide) fun row hrow => ?_
  obtain ⟨r, -, rfl⟩ := List.mem_map.mp hrow
  have hmode : ',' ∉ r.mode := by
    unfold TraceRow.mode
    split <;> decide
  have haddr : ',' ∉ hexText r.addrDigits := not_mem_hexText r.addr_digits (by decide) (by decide)
  have hdata : '\n' ∉ hexText r.dataDigits := not_mem_hexText r.data_digits (by decide) (by decide)
  exact .cons r.comma_not_mem_tag (.cons hmode (.cons haddr (.cons hdata .nil)))

/-- The values the program computes in `int`, and those it reads with `stoi`, fit. -/
structure InRange (nv : ℕ) (trace : List TraceRow) : Prop where
  group : 16 * nv < 2 ^ 31
  addresses : ∀ r ∈ trace, r.addr < 2 ^ 31
  offsets : ∀ i < (accepted trace).length, maxpRelayAddr nv i < 2 ^ 31

/-- **The file written for a trace**, and when there is one. -/
theorem maxpTestGen_eq (T nv : ℕ) (trace : List TraceRow) (csv : List Str) :
    maxpTestGen T nv (traceText trace) = some csv ↔ InRange nv trace ∧
      csv = placedRows nv 0 (accepted trace) ++ [maxpoolRow T (nv * 16), endRow] := by
  unfold maxpTestGen
  rw [readRows_traceText, guard]
  by_cases hgroup : 16 * nv < 2 ^ 31
  · have hloop := foldlM_maxpStep nv trace ⟨0, []⟩
    simp only [Nat.zero_add, List.nil_append] at hloop
    rw [if_pos hgroup]
    simp only [Option.bind_eq_bind, Option.bind_some, Option.pure_def, Option.bind_eq_some_iff,
      Option.some_inj]
    constructor
    · rintro ⟨st, hst, rfl⟩
      obtain ⟨haddr, hfits, rfl⟩ := (hloop st).mp hst
      exact ⟨⟨hgroup, haddr, hfits⟩, rfl⟩
    · rintro ⟨⟨-, haddr, hfits⟩, rfl⟩
      exact ⟨_, (hloop _).mpr ⟨haddr, hfits, rfl⟩, rfl⟩
  · rw [if_neg hgroup]
    exact ⟨fun h => (by cases h), fun h => absurd h.1.group hgroup⟩

/-! ## The memories -/

namespace TraceRow

variable (r : TraceRow)

/-- The rows of a write store its sixteen bytes. -/
lemma foldl_relayWrite_rows (hwrite : r.write = true) (m : Mem ℕ) (a : ℕ) :
    (r.rows a).foldl relayWrite m = storeBlock m a 16 r.byte := by
  have hmode : r.mode = "W".toList := by rw [mode, hwrite]; rfl
  rw [rows, List.foldl_map, ← foldl_update_eq_storeBlock]
  refine List.foldl_ext _ _ _ fun m j hj => ?_
  rw [relayWrite, hmode, relayCommand_storeRow _ (r.byteText_digits j),
    r.ofDigits_byteText (List.mem_range.mp hj)]

lemma isSome_relayCommand (hwrite : r.write = true) (a : ℕ) :
    ∀ row ∈ r.rows a, (relayCommand row).isSome := by
  have hmode : r.mode = "W".toList := by rw [mode, hwrite]; rfl
  intro row hrow
  obtain ⟨j, -, rfl⟩ := List.mem_map.mp hrow
  rw [hmode, relayCommand_storeRow _ (r.byteText_digits j)]
  rfl

/-- The rows of a read are no commands. -/
lemma exists_relayCommand_eq_none (hread : r.write = false) (a : ℕ) :
    ∃ row ∈ r.rows a, relayCommand row = none := by
  have hmode : r.mode = "R".toList := by rw [mode, hread]; rfl
  refine ⟨_, List.mem_map_of_mem (List.mem_range.mpr (by decide : 0 < 16)), ?_⟩
  rw [hmode, relayCommand_read _ (r.byteText_digits 0)]

/-- A row of the window addresses the first byte of its vector. -/
lemma addr_eq (h : addrMin ≤ r.addr) : r.addr = addrMin + 16 * r.vector := by
  obtain ⟨k, hk⟩ := r.aligned
  have haddr : r.addr = 16 * k := hk
  rw [vector]
  unfold addrMin at *
  omega

lemma accepted_of_stores (h : r.Stores) : r.Accepted := ⟨h.2.1, h.2.2.le⟩

end TraceRow

/-- Relay memory after a file whose store rows all come from writes: the `i`-th kept row lies in
the relay vector of `i`. -/
lemma relayMem_placedRows {nv : ℕ} (hnv : 1 ≤ nv) {acc : List TraceRow}
    (hwrite : ∀ r ∈ acc, r.write = true) (T X v : ℕ) {j : ℕ} (hj : j < 16) :
    relayMem (placedRows nv 0 acc ++ [maxpoolRow T X, endRow]) (16 * relayVector nv v + j)
      = acc[v]?.map (·.byte j) := by
  have htail : ∀ m : Mem ℕ, [maxpoolRow T X, endRow].foldl relayWrite m = m := by
    intro m
    simp only [List.foldl_cons, List.foldl_nil, relayWrite, relayCommand_maxpoolRow,
      relayCommand_endRow]
  have hblocks : relayMem (placedRows nv 0 acc) = acc.zipIdx.foldl
      (fun m p => storeBlock m (16 * relayVector nv p.2) 16 p.1.byte) fun _ => none := by
    rw [relayMem, placedRows, List.foldl_flatMap]
    refine List.foldl_ext _ _ _ fun m p hp => ?_
    rw [maxpRelayAddr_eq_relayVector, p.1.foldl_relayWrite_rows]
    exact hwrite _ (List.fst_mem_of_mem_zipIdx hp)
  rw [relayMem, List.foldl_append, htail, ← relayMem, hblocks]
  exact foldl_zipIdx_storeBlock_apply (relayVector_injective hnv) (fun r => r.byte) acc v hj

/-- The large buffer after a trace: a vector holds the last write to it. -/
lemma flexMem_eq (trace : List TraceRow) (v : ℕ) {j : ℕ} (hj : j < 16) :
    flexMem trace (addrMin + 16 * v + j) =
      (lastBy TraceRow.vector (trace.filter (·.Stores)) v).map (·.byte j) := by
  have hbase : addrMin + 16 * v + j = 16 * (addrMin / 16 + v) + j := by
    unfold addrMin
    omega
  have hkey : ∀ r : TraceRow, r.Stores → r.addr = 16 * (addrMin / 16 + r.vector) := by
    intro r hr
    have := r.addr_eq hr.2.1
    unfold addrMin at *
    omega
  have hfold : flexMem trace = (trace.filter (·.Stores)).foldl
      (fun m r => storeBlock m (16 * (addrMin / 16 + r.vector)) 16 r.byte) fun _ => none := by
    rw [flexMem, List.foldl_filter]
    refine List.foldl_ext _ _ _ fun m r _ => ?_
    by_cases hr : r.Stores
    · rw [if_pos hr, if_pos (by simpa using hr), hkey r hr]
    · rw [if_neg hr, if_neg (by simpa using hr)]
  have hlast : lastBy (fun r : TraceRow => addrMin / 16 + r.vector) (trace.filter (·.Stores))
      (addrMin / 16 + v) = lastBy TraceRow.vector (trace.filter (·.Stores)) v := by
    simp only [lastBy, Nat.add_left_cancel_iff]
  rw [hbase, hfold, foldl_storeBlock_apply (fun r : TraceRow => addrMin / 16 + r.vector)
    (fun r => r.byte) _ _ hj, hlast]

/-- Sixteen bytes determine the data. -/
lemma bytes_eq_iff (o o' : Option TraceRow) :
    (∀ j < 16, o.map (·.byte j) = o'.map (·.byte j)) ↔ o.map (·.data) = o'.map (·.data) := by
  constructor
  · intro h
    have hbytes : ∀ r r' : TraceRow, (∀ j < 16, r.byte j = r'.byte j) → r.data = r'.data := by
      intro r r' hb
      have hmod : ∀ n ≤ 16, r.data % 256 ^ n = r'.data % 256 ^ n := by
        intro n
        induction n with
        | zero => simp [Nat.mod_one]
        | succ n ih =>
            intro hn
            have hn' : r.data / 256 ^ n % 256 = r'.data / 256 ^ n % 256 := hb n (by omega)
            rw [Nat.mod_pow_succ, Nat.mod_pow_succ, ih (by omega), hn']
      have hlt : ∀ q : TraceRow, q.data < 256 ^ 16 := fun q =>
        Nat.mod_lt _ (by decide)
      have := hmod 16 le_rfl
      rwa [Nat.mod_eq_of_lt (hlt r), Nat.mod_eq_of_lt (hlt r')] at this
    have h0 := h 0 (by decide)
    cases o with
    | none =>
        cases o' with
        | none => rfl
        | some r' => simp at h0
    | some r =>
        cases o' with
        | none => simp at h0
        | some r' =>
            simp only [Option.map_some, Option.some_inj] at h ⊢
            exact hbytes r r' h
  · intro h j _
    have hmap : ∀ p : Option TraceRow,
        p.map (·.byte j) = (p.map (·.data)).map fun d => d / 256 ^ j % 256 := by
      intro p
      rw [Option.map_map]
      rfl
    rw [hmap o, hmap o', h]

/-! ## Refinement -/

/-- The relay file puts relay memory in the state of the large buffer: every row is a command, the
bytes of the large buffer are found along the address map, and nothing else is written. -/
structure Refines (nv : ℕ) (trace : List TraceRow) (csv : List Str) : Prop where
  wellFormed : ∀ row ∈ csv, (relayCommand row).isSome
  agrees : ∀ v j, j < 16 → flexMem trace (addrMin + 16 * v + j) ≠ none →
    relayMem csv (16 * relayVector nv v + j) = flexMem trace (addrMin + 16 * v + j)
  noOther : ∀ b, relayMem csv b ≠ none → ∃ v j, j < 16 ∧
    flexMem trace (addrMin + 16 * v + j) ≠ none ∧ b = 16 * relayVector nv v + j

/-- The generator's file does so. -/
def Relays (T nv : ℕ) (trace : List TraceRow) : Prop :=
  ∃ csv, maxpTestGen T nv (traceText trace) = some csv ∧ Refines nv trace csv

/-- Every kept row is a write below the end of the window, and the `i`-th has the data of a row
that addresses vector `i`. -/
structure InOrder (trace : List TraceRow) : Prop where
  stores : ∀ r ∈ accepted trace, r.Stores
  placed : ∀ i r, (accepted trace)[i]? = some r →
    ∃ q ∈ accepted trace, q.vector = i ∧ q.data = r.data

/-- The two ways to say that two memories agree along a bijection. -/
lemma memories_agree_iff {nv : ℕ} (hnv : 1 ≤ nv) (relay flex : Mem ℕ) :
    ((∀ v j, j < 16 → flex (addrMin + 16 * v + j) ≠ none →
        relay (16 * relayVector nv v + j) = flex (addrMin + 16 * v + j)) ∧
      ∀ b, relay b ≠ none → ∃ v j, j < 16 ∧ flex (addrMin + 16 * v + j) ≠ none ∧
        b = 16 * relayVector nv v + j) ↔
    ∀ v j, j < 16 → relay (16 * relayVector nv v + j) = flex (addrMin + 16 * v + j) := by
  constructor
  · rintro ⟨hagrees, hno⟩ v j hj
    by_cases hflex : flex (addrMin + 16 * v + j) = none
    · by_contra hne
      obtain ⟨v', j', hj', hflex', heq⟩ := hno _ fun h => hne (h.trans hflex.symm)
      have hv : relayVector nv v = relayVector nv v' := by omega
      obtain rfl := relayVector_injective hnv hv
      obtain rfl : j = j' := by omega
      exact hflex' hflex
    · exact hagrees v j hj hflex
  · intro h
    refine ⟨fun v j hj _ => h v j hj, fun b hb => ?_⟩
    have hsplit : b = 16 * relayVector nv (checkerVector nv nv (b / 16)) + b % 16 := by
      rw [relayVector_checkerVector hnv]
      omega
    refine ⟨checkerVector nv nv (b / 16), b % 16, Nat.mod_lt _ (by decide), ?_, hsplit⟩
    rw [← h _ _ (Nat.mod_lt b (by decide)), ← hsplit]
    exact hb

/-- The kept rows that change the large buffer are the rows of the trace that do. -/
lemma filter_stores_accepted (trace : List TraceRow) :
    (accepted trace).filter (·.Stores) = trace.filter (·.Stores) := by
  rw [accepted, List.filter_filter]
  refine List.filter_congr ?_
  intro r _
  have himp := r.accepted_of_stores
  simp only [← Bool.decide_and, decide_eq_decide]
  constructor
  · intro h
    exact h.1
  · intro h
    exact ⟨h, himp h⟩

/-- Every row of the file is a command exactly when no read was kept. -/
lemma wellFormed_iff (T X nv : ℕ) (acc : List TraceRow) :
    (∀ row ∈ placedRows nv 0 acc ++ [maxpoolRow T X, endRow], (relayCommand row).isSome) ↔
      ∀ r ∈ acc, r.write = true := by
  constructor
  · intro h r hr
    by_contra hread
    obtain ⟨i, hi, hget⟩ := List.mem_iff_getElem.mp hr
    have hmem : (r, i) ∈ acc.zipIdx := by
      rw [List.mem_zipIdx_iff_getElem?, List.getElem?_eq_getElem hi, hget]
    obtain ⟨row, hrow, hnone⟩ :=
      r.exists_relayCommand_eq_none (by simpa using hread) (maxpRelayAddr nv i)
    have hsome := h row (List.mem_append_left _ (List.mem_flatMap.mpr ⟨(r, i), hmem, hrow⟩))
    rw [hnone] at hsome
    cases hsome
  · intro hwrite row hrow
    rcases List.mem_append.mp hrow with hrow | hrow
    · obtain ⟨⟨r, i⟩, hp, hrow⟩ := List.mem_flatMap.mp hrow
      exact r.isSome_relayCommand (hwrite r (List.fst_mem_of_mem_zipIdx hp)) _ row hrow
    · simp only [List.mem_cons, List.not_mem_nil, or_false] at hrow
      rcases hrow with rfl | rfl
      · rw [relayCommand_maxpoolRow]
        rfl
      · rw [relayCommand_endRow]
        rfl

/-- For a file of writes, agreement of the memories is reading by position against reading by
key. -/
lemma agree_iff_inOrder {T X nv : ℕ} (hnv : 1 ≤ nv) {trace : List TraceRow}
    (hwrite : ∀ r ∈ accepted trace, r.write = true) :
    (∀ v j, j < 16 →
      relayMem (placedRows nv 0 (accepted trace) ++ [maxpoolRow T X, endRow])
          (16 * relayVector nv v + j) = flexMem trace (addrMin + 16 * v + j)) ↔
      InOrder trace := by
  have hsub : (trace.filter (·.Stores)).Sublist (accepted trace) := by
    rw [← filter_stores_accepted]
    exact List.filter_sublist
  have hall : trace.filter (·.Stores) = accepted trace ↔ ∀ r ∈ accepted trace, r.Stores := by
    rw [← filter_stores_accepted, List.filter_eq_self]
    simp
  have hkeyed := @getElem?_eq_lastBy_iff _ _ TraceRow.vector TraceRow.data _ _ hsub
  rw [hall] at hkeyed
  have hinOrder : InOrder trace ↔ (∀ r ∈ accepted trace, r.Stores) ∧ ∀ i r,
      (accepted trace)[i]? = some r → ∃ q ∈ accepted trace, q.vector = i ∧ q.data = r.data :=
    ⟨fun h => ⟨h.stores, h.placed⟩, fun h => ⟨h.1, h.2⟩⟩
  rw [hinOrder, ← hkeyed]
  refine forall_congr' ?_
  intro v
  rw [← bytes_eq_iff]
  refine forall_congr' ?_
  intro j
  refine forall_congr' ?_
  intro hj
  rw [relayMem_placedRows hnv hwrite T X v hj, flexMem_eq trace v hj]

/-- **When the stimulus refines the trace.** -/
theorem refines_iff {T X nv : ℕ} (hnv : 1 ≤ nv) (trace : List TraceRow) :
    Refines nv trace (placedRows nv 0 (accepted trace) ++ [maxpoolRow T X, endRow]) ↔
      InOrder trace := by
  constructor
  · intro h
    have hwrite := (wellFormed_iff T X nv _).mp h.wellFormed
    exact (agree_iff_inOrder hnv hwrite).mp ((memories_agree_iff hnv _ _).mp ⟨h.agrees, h.noOther⟩)
  · intro h
    have hwrite : ∀ r ∈ accepted trace, r.write = true := by
      intro r hr
      exact (h.stores r hr).1
    obtain ⟨hagrees, hno⟩ := (memories_agree_iff hnv _ _).mpr ((agree_iff_inOrder hnv hwrite).mpr h)
    exact ⟨(wellFormed_iff T X nv _).mpr hwrite, hagrees, hno⟩

/-- **When the generator relays a trace.** -/
theorem relays_iff (T nv : ℕ) (hnv : 1 ≤ nv) (trace : List TraceRow) :
    Relays T nv trace ↔ InRange nv trace ∧ InOrder trace := by
  unfold Relays
  simp only [maxpTestGen_eq]
  constructor
  · rintro ⟨csv, ⟨hrange, rfl⟩, hrefines⟩
    exact ⟨hrange, (refines_iff hnv trace).mp hrefines⟩
  · rintro ⟨hrange, horder⟩
    exact ⟨_, ⟨hrange, rfl⟩, (refines_iff hnv trace).mpr horder⟩

/-- A row that addresses vector `k` of the large buffer, for a digit `k`. -/
def sampleRow (write : Bool) (k : Fin 10) : TraceRow where
  tag := ['x']
  write := write
  addrDigits := ['3', '3', '5', '0', '0', '0', Nat.digitChar k, '0']
  dataDigits := ['7']
  comma_not_mem_tag := by decide
  addr_ne_nil := List.cons_ne_nil _ _
  addr_digits := List.all_eq_true.mp (by revert k; decide)
  aligned := by revert k; decide
  data_ne_nil := by decide
  data_length := by decide
  data_digits := List.all_eq_true.mp (by decide)

lemma accepted_sampleRow (write : Bool) (k : Fin 10) :
    accepted [sampleRow write k] = [sampleRow write k] := by
  have h : (sampleRow write k).Accepted := by
    show addrMin ≤ ofDigits 16 _ ∧ ofDigits 16 _ ≤ addrMax
    revert k
    cases write <;> decide
  simp [accepted, h]

/-- A write of `k` to vector `k`. -/
def numberedRow (k : Fin 10) : TraceRow where
  tag := ['x']
  write := true
  addrDigits := ['3', '3', '5', '0', '0', '0', Nat.digitChar k, '0']
  dataDigits := [Nat.digitChar k]
  comma_not_mem_tag := by decide
  addr_ne_nil := List.cons_ne_nil _ _
  addr_digits := List.all_eq_true.mp (by revert k; decide)
  aligned := by revert k; decide
  data_ne_nil := List.cons_ne_nil _ _
  data_length := by revert k; decide
  data_digits := List.all_eq_true.mp (by revert k; decide)

lemma vector_numberedRow (k : Fin 10) : (numberedRow k).vector = k := by
  show (ofDigits 16 _ - addrMin) / 16 = _
  revert k
  decide

/-- The ten of them in order. -/
def numberedTrace : List TraceRow := (List.finRange 10).map numberedRow

lemma stores_numberedTrace : ∀ r ∈ numberedTrace, r.Stores := by
  intro r hr
  obtain ⟨k, -, rfl⟩ := List.mem_map.mp hr
  show true = true ∧ addrMin ≤ ofDigits 16 _ ∧ ofDigits 16 _ < addrMax
  clear hr
  revert k
  decide

lemma accepted_numberedTrace : accepted numberedTrace = numberedTrace := by
  refine List.filter_eq_self.mpr ?_
  intro r hr
  have hstores := stores_numberedTrace r hr
  exact decide_eq_true ⟨hstores.2.1, hstores.2.2.le⟩

lemma inRange_numberedTrace : InRange 2 numberedTrace where
  group := by decide
  addresses := by
    intro r hr
    exact (stores_numberedTrace r hr).2.2.trans (by decide)
  offsets := by
    rw [accepted_numberedTrace, numberedTrace, List.length_map, List.length_finRange]
    decide

/-- With two vectors to a group, ten writes are relayed to places of their own. -/
theorem relays_twoVectors : Relays 16 2 numberedTrace := by
  refine (relays_iff 16 2 (by decide) numberedTrace).mpr ⟨inRange_numberedTrace, ?_, ?_⟩
  · rw [accepted_numberedTrace]
    exact stores_numberedTrace
  · intro i r hr
    rw [accepted_numberedTrace] at hr ⊢
    obtain ⟨hi, rfl⟩ := List.getElem?_eq_some_iff.mp hr
    refine ⟨_, List.getElem_mem hi, ?_, rfl⟩
    simp [numberedTrace, vector_numberedRow]

/-- One write to the second vector lands in the first; one read leaves rows that are no commands. -/
theorem relays_fails :
    ¬ Relays 16 1 [sampleRow true 1] ∧ ¬ Relays 16 1 [sampleRow false 0] := by
  have horder : ∀ trace, Relays 16 1 trace → InOrder trace := by
    rintro trace ⟨csv, hcsv, hrefines⟩
    obtain ⟨-, rfl⟩ := (maxpTestGen_eq 16 1 trace csv).mp hcsv
    exact (refines_iff (by decide) trace).mp hrefines
  constructor
  · intro h
    have hplaced := (horder _ h).placed 0 (sampleRow true 1) (by rw [accepted_sampleRow]; rfl)
    rw [accepted_sampleRow] at hplaced
    obtain ⟨q, hq, hvector, -⟩ := hplaced
    obtain rfl := List.mem_singleton.mp hq
    have hone : (sampleRow true 1).vector = 1 := by
      show (ofDigits 16 _ - addrMin) / 16 = 1
      decide
    rw [hone] at hvector
    exact absurd hvector (by decide)
  · intro h
    have hstores := (horder _ h).stores (sampleRow false 0) (by rw [accepted_sampleRow]; simp)
    exact absurd hstores.1 (by decide)

end ThreeLaSim
