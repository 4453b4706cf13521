import ThreeLaSim.Core.HexWord
import ThreeLaSim.Flexnlp.AddrMap

/-!
# The flexnlp verdict

`extract_flexnlp_result` turns the raw log of the flexnlp design into rows `address,data`; the
testbench reads the rows back and compares every byte with its large buffer.

* `extractFlexnlpResult`, `resultCheck` — the two programs.
* `extractLine_response` — what is extracted for a read word: 32 digits, with a stray blank behind
  them when the log printed 33.
* **`verdict_iff`** — the testbench passes exactly when the large buffer holds every word of the log.
-/

namespace ThreeLaSim

open CText

/-! ## The programs -/

/-- A position as an `int`: `npos` is `-1`. -/
def posInt : Option ℕ → ℤ
  | some i => i
  | none => -1

/-- An `int` as a `size_t`. -/
def sizeT (i : ℤ) : ℕ := (i % 2 ^ 64).toNat

/-- `s.erase(pos, 1)`; none where it throws `out_of_range`. -/
def eraseOne (s : Str) (pos : ℕ) : Option Str :=
  if pos ≤ s.length then some (s.take pos ++ s.drop (pos + 1)) else none

/-- One line of the log; `fs` is the text written so far. -/
def extractLine (fs dataLine : Str) : Option Str :=
  if !contains "read".toList dataLine then some fs
  else if contains "addr".toList dataLine then do
    let addrPos := posInt (find "0x".toList dataLine)
    let addr ← substr dataLine (sizeT addrPos) 10
    return fs ++ (addr ++ [','])
  else if contains "data".toList dataLine then do
    let dataPosLo := posInt (find "0x".toList dataLine)
    let dataPosHi := posInt (rfind "resp".toList dataLine)
    let dataLen := dataPosHi - dataPosLo - 1
    let zeros := List.replicate (34 - dataLen).toNat '0'
    let dataLine ← if dataLen > 34 then eraseOne dataLine (sizeT (dataPosLo + 2)) else some dataLine
    let digits ← substr dataLine (sizeT (dataPosLo + 2)) (sizeT (dataLen - 2))
    return fs ++ ("0x".toList ++ (zeros ++ (digits ++ ['\n'])))
  else some fs

/-- `extract_flexnlp_result`, on the lines of the log; the first one is skipped. -/
def extractFlexnlpResult (log : List Str) : Option Str := log.tail.foldlM extractLine []

/-- One byte of a row: digits from the left against the buffer from the right. -/
def compareByte (largeBuffer : ℕ → ℕ) (addrInt : ℤ) (dataStr : Str) (t : Tally) (j : ℕ) :
    Option Tally := do
  let dataByte ← substr dataStr (2 + 2 * j) 2
  let dataFlex ← stoi 16 dataByte
  let dataIla := largeBuffer (addrInt + 15 - j).toNat
  return if (dataIla : ℤ) = dataFlex then { t with total := t.total + 1, passed := t.passed + 1 }
    else { t with total := t.total + 1, error := t.error + 1 }

/-- One row; the errors of a row are counted on their own and then added. -/
def compareRow (largeBuffer : ℕ → ℕ) (t : Tally) : List Str → Option Tally
  | [addrStr, dataStr] => do
      let addrStr ← substr addrStr 5 5
      let addrInt ← stoi 16 addrStr
      let row ← (List.range 16).foldlM (compareByte largeBuffer addrInt dataStr) { t with error := 0 }
      return { row with error := t.error + row.error }
  | _ => none

/-- The comparison of the lstm testbench, on the text of the result file. -/
def resultCheck (largeBuffer : ℕ → ℕ) (fin : Str) : Option Tally := do
  let rows ← readRows [',', '\n'] fin
  rows.foldlM (compareRow largeBuffer) ⟨0, 0, 0⟩

/-- `TESTBENCH PASSED`. -/
def Tally.Passed (t : Tally) : Prop := t.total = t.passed

/-! ## Logs -/

/-- What stands before the address of a request. -/
def requestHead : Str := "Sent read request: id:0 addr:".toList

/-- What stands behind it. -/
def requestTail : Str := " len:0 ".toList

/-- What stands before the data of a response. -/
def responseHead : Str := "Received read response: [id:0 data:".toList

/-- What stands behind it. -/
def responseTail : Str := " resp:0 last:1 ]".toList

/-- Any other line: `read` does not occur in it. -/
structure QuietLine where
  text : Str
  no_read : contains "read".toList text = false

/-- A read: the eight digits of the address, the lines before the response, the digits of the data. -/
structure ReadPair where
  addrDigits : Str
  between : List QuietLine
  dataDigits : Str
  addr_length : addrDigits.length = 8
  addr_digits : ∀ c ∈ addrDigits, isDigit 16 c = true
  data_ne_nil : dataDigits ≠ []
  data_length : dataDigits.length ≤ 33
  data_digits : ∀ c ∈ dataDigits, isDigit 16 c = true

namespace ReadPair

variable (p : ReadPair)

def addr : ℕ := ofDigits 16 p.addrDigits

def value : ℕ := ofDigits 16 p.dataDigits

def request : Str := requestHead ++ (hexText p.addrDigits ++ requestTail)

def response : Str := responseHead ++ (hexText p.dataDigits ++ responseTail)

/-- The lines of the read. -/
def lines : List Str := p.request :: p.between.map QuietLine.text ++ [p.response]

/-- The digits extracted: a word of sixteen bytes, and the blank behind a 33rd digit. -/
def word : Str := hexWord 16 p.dataDigits ++ if p.dataDigits.length = 33 then [' '] else []

/-- The row extracted. -/
def row : List Str := [hexText p.addrDigits, hexText p.word]

end ReadPair

/-- The lines of a log behind its banner. -/
def logLines (items : List (QuietLine ⊕ ReadPair)) : List Str :=
  items.flatMap fun
    | .inl l => [l.text]
    | .inr p => p.lines

/-- The reads of a log. -/
def logReads (items : List (QuietLine ⊕ ReadPair)) : List ReadPair := items.filterMap Sum.getRight?

/-! ## Extraction -/

lemma extractLine_quiet (fs : Str) (l : QuietLine) : extractLine fs l.text = some fs := by
  rw [extractLine, l.no_read]
  rfl

lemma foldlM_quiet (fs : Str) (ls : List QuietLine) :
    (ls.map QuietLine.text).foldlM extractLine fs = some fs := by
  refine foldlM_unchanged ?_
  intro line hline
  obtain ⟨l, -, rfl⟩ := List.mem_map.mp hline
  exact extractLine_quiet fs l

lemma eraseOne_append {pre : Str} {pos : ℕ} (hpos : pos = pre.length) (c : Char) (post : Str) :
    eraseOne (pre ++ c :: post) pos = some (pre ++ post) := by
  subst hpos
  rw [eraseOne, if_pos (by simp), List.take_left, ← List.drop_drop, List.drop_left]
  rfl

lemma sizeT_natCast {n : ℕ} (h : n < 2 ^ 64) : sizeT n = n := by
  rw [sizeT]
  omega

namespace ReadPair

variable (p : ReadPair)

/-- A request yields the address. -/
lemma extractLine_request (fs : Str) :
    extractLine fs p.request = some (fs ++ (hexText p.addrDigits ++ [','])) := by
  have hread : contains "read".toList p.request = true := contains_append_left (by decide) _
  have haddr : contains "addr".toList p.request = true := contains_append_left (by decide) _
  have hno : ¬ "0x".toList <:+: requestHead ++ "0x".toList.dropLast :=
    (contains_eq_false_iff _ _).mp (by decide)
  have hfind : find "0x".toList p.request = some requestHead.length :=
    find_of_not_infix ⟨p.addrDigits ++ requestTail, rfl⟩ requestHead hno
  have hcut : substr p.request (sizeT (requestHead.length : ℕ)) 10 = some (hexText p.addrDigits) := by
    refine substr_append (sizeT_natCast (by decide)) ?_
    simp [hexText, p.addr_length]
  unfold extractLine
  simp only [hread, haddr, hfind, posInt, hcut, Bool.not_true, Bool.false_eq_true, if_false, if_true]
  rfl

/-- The position of the data in a response. -/
lemma find_response : find "0x".toList p.response = some responseHead.length := by
  have hno : ¬ "0x".toList <:+: responseHead ++ "0x".toList.dropLast :=
    (contains_eq_false_iff _ _).mp (by decide)
  exact find_of_not_infix ⟨p.dataDigits ++ responseTail, rfl⟩ responseHead hno

/-- The position of the response code: behind the data and a blank. -/
lemma rfind_response : rfind "resp".toList p.response
    = some (responseHead.length + p.dataDigits.length + 3) := by
  have hcode : rfind "resp".toList responseTail = some 1 := by decide
  have h := rfind_append hcode (responseHead ++ hexText p.dataDigits)
  rw [List.append_assoc] at h
  rw [response, h, hexText]
  simp only [List.length_append, List.length_cons]
  congr 1

/-- A response contains no `addr`. -/
lemma addr_not_mem_response : contains "addr".toList p.response = false := by
  have hhead : responseHead = "Received read response: [id".toList ++ ':' :: ("0 data".toList ++ [':'])
      := by decide
  have htail : responseTail = ' ' :: "resp:0 last:1 ]".toList := by decide
  have hsplit : p.response = "Received read response: [id".toList ++ ':' ::
      ("0 data".toList ++ ':' :: (hexText p.dataDigits ++ ' ' :: "resp:0 last:1 ]".toList)) := by
    rw [response, hhead, htail]
    simp only [List.append_assoc, List.cons_append, List.nil_append]
  have hdata : 'r' ∉ hexText p.dataDigits := not_mem_hexText p.data_digits (by decide) (by decide)
  rw [contains_eq_false_iff, hsplit, infix_sep_iff (by decide), infix_sep_iff (by decide),
    infix_sep_iff (by decide)]
  rintro (h | h | h | h)
  · exact absurd ((contains_iff _ _).mpr h) (by decide)
  · exact absurd ((contains_iff _ _).mpr h) (by decide)
  · exact not_infix_of_not_mem (by decide) hdata h
  · exact absurd ((contains_iff _ _).mpr h) (by decide)

lemma response_eq :
    p.response = (responseHead ++ ['0', 'x']) ++ (p.dataDigits ++ responseTail) := by
  simp [response, hexText]

/-- Of 33 digits the first is erased, and the slice takes the blank behind the data in its place. -/
lemma slice_long (hlong : p.dataDigits.length = 33) :
    ∃ line, eraseOne p.response (responseHead.length + 2) = some line ∧
      substr line (responseHead.length + 2) 33 = some p.word := by
  obtain ⟨d, ds, hds⟩ := List.exists_cons_of_ne_nil p.data_ne_nil
  have hlen : ds.length = 32 := by
    rw [hds, List.length_cons] at hlong
    omega
  have hword : p.word = ds ++ [' '] := by
    rw [word, if_pos hlong, hexWord, hlong, hds]
    simp [List.leftpad, hlen]
  have htail : responseTail = [' '] ++ "resp:0 last:1 ]".toList := by decide
  refine ⟨(responseHead ++ ['0', 'x']) ++ (p.word ++ "resp:0 last:1 ]".toList), ?_, ?_⟩
  · rw [p.response_eq, hword, hds, List.append_assoc ds, ← htail]
    exact eraseOne_append rfl d _
  · exact substr_append (by simp) (by simp [hword, hlen])

/-- Up to 32 digits are the slice, and the zeros in front of them fill the word. -/
lemma slice_short (hshort : p.dataDigits.length ≤ 32) :
    substr p.response (responseHead.length + 2) p.dataDigits.length = some p.dataDigits ∧
      p.word = List.replicate (32 - p.dataDigits.length) '0' ++ p.dataDigits := by
  constructor
  · rw [p.response_eq]
    exact substr_append (by simp) rfl
  · have hcut : p.dataDigits.length - 2 * 16 = 0 := by omega
    rw [word, if_neg (by omega), hexWord, hcut, List.drop_zero, List.leftpad, List.append_nil]

/-- **A response yields the word**: short data is filled up with zeros, and of 33 digits the first
is erased, which brings the blank behind the data into the text. -/
lemma extractLine_response (fs : Str) :
    extractLine fs p.response = some (fs ++ (hexText p.word ++ ['\n'])) := by
  have hread : contains "read".toList p.response = true := contains_append_left (by decide) _
  have hdata : contains "data".toList p.response = true := contains_append_left (by decide) _
  have hlen := p.data_length
  set n := p.dataDigits.length with hn
  have hdataLen : (((responseHead.length + n + 3 : ℕ) : ℤ) - (responseHead.length : ℕ) - 1)
      = ((n + 2 : ℕ) : ℤ) := by omega
  have hpos : sizeT (((responseHead.length : ℕ) : ℤ) + 2) = responseHead.length + 2 := by decide
  have hcount : sizeT (((n + 2 : ℕ) : ℤ) - 2) = n := by
    have hsub : ((n + 2 : ℕ) : ℤ) - 2 = (n : ℕ) := by omega
    rw [hsub, sizeT_natCast (by omega)]
  have hzeros : (34 - ((n + 2 : ℕ) : ℤ)).toNat = 32 - n := by omega
  unfold extractLine
  simp only [hread, p.addr_not_mem_response, hdata, p.find_response, p.rfind_response, ← hn, posInt,
    hdataLen, hpos, hcount, hzeros, Bool.not_true, Bool.false_eq_true, if_false, if_true]
  by_cases hlong : n = 33
  · obtain ⟨line, herase, hslice⟩ := p.slice_long hlong
    rw [if_pos (by omega), herase, hlong]
    simp only [Option.bind_eq_bind, Option.bind_some, hslice]
    rfl
  · obtain ⟨hslice, hword⟩ := p.slice_short (by omega)
    rw [← hn] at hslice hword
    rw [if_neg (by omega)]
    simp only [Option.bind_eq_bind, Option.bind_some, hslice, hword]
    simp [hexText]

end ReadPair

/-- **The result file of a log**: one row for each read. -/
theorem extractFlexnlpResult_log (banner : Str) (items : List (QuietLine ⊕ ReadPair)) :
    extractFlexnlpResult (banner :: logLines items)
      = some (((logReads items).map ReadPair.row).flatMap (printRow [',', '\n'])) := by
  have hloop : ∀ (items : List (QuietLine ⊕ ReadPair)) (fs : Str),
      (logLines items).foldlM extractLine fs
        = some (fs ++ ((logReads items).map ReadPair.row).flatMap (printRow [',', '\n'])) := by
    intro items
    induction items with
    | nil =>
        intro fs
        simp [logLines, logReads]
    | cons item items ih =>
        intro fs
        rw [logLines] at ih
        cases item with
        | inl l =>
            rw [logLines, List.flatMap_cons, List.foldlM_append, List.foldlM_cons,
              extractLine_quiet]
            simp only [List.foldlM_nil, Option.bind_eq_bind, Option.bind_some, Option.pure_def, ih]
            rfl
        | inr p =>
            have hreads : logReads (.inr p :: items) = p :: logReads items := rfl
            have hrow : printRow [',', '\n'] p.row
                = hexText p.addrDigits ++ ',' :: (hexText p.word ++ ['\n']) := rfl
            have hlines : logLines (.inr p :: items) = p.request ::
                (p.between.map QuietLine.text ++ [p.response]) ++ logLines items := rfl
            rw [hlines, List.foldlM_append, List.foldlM_cons, p.extractLine_request, logLines]
            simp only [Option.bind_eq_bind, Option.bind_some, List.foldlM_append, foldlM_quiet,
              List.foldlM_cons, List.foldlM_nil, p.extractLine_response, Option.pure_def, ih, hreads,
              List.map_cons, List.flatMap_cons, hrow]
            simp
  rw [extractFlexnlpResult, List.tail_cons, hloop, List.nil_append]

/-! ## Comparison -/

namespace ReadPair

variable (p : ReadPair)

/-- The bytes of the word that the large buffer holds. -/
def Held (largeBuffer : ℕ → ℕ) (b : ℕ) : Prop :=
  largeBuffer (p.addr % 2 ^ 20 + b) = p.value % 2 ^ 128 / 256 ^ b % 256

instance (largeBuffer : ℕ → ℕ) : DecidablePred (p.Held largeBuffer) :=
  fun _ => inferInstanceAs (Decidable (_ = _))

/-- The address is cut by position: the last five of its eight digits. -/
lemma stoi_addr : substr (hexText p.addrDigits) 5 5 = some (p.addrDigits.drop 3) ∧
    stoi 16 (p.addrDigits.drop 3) = some ((p.addr % 2 ^ 20 : ℕ) : ℤ) := by
  have hlen : (p.addrDigits.drop 3).length = 5 := by rw [List.length_drop, p.addr_length]
  have hdigits : ∀ c ∈ p.addrDigits.drop 3, isDigit 16 c = true := by
    intro c hc
    exact p.addr_digits c (List.mem_of_mem_drop hc)
  have hvalue : ofDigits 16 (p.addrDigits.drop 3) = p.addr % 2 ^ 20 := by
    have h := ofDigits_drop (by decide) p.addr_digits 5
    rwa [p.addr_length] at h
  constructor
  · rw [substr, if_pos (by simp [hexText, p.addr_length])]
    exact congrArg some (List.take_of_length_le hlen.le)
  · have hne : p.addrDigits.drop 3 ≠ [] := by
      rw [← List.length_pos_iff, hlen]
      decide
    have hlt : p.addr % 2 ^ 20 < 2 ^ 31 := (Nat.mod_lt _ (by decide)).trans (by decide)
    rw [stoi_digits_nil hne hdigits, hvalue, if_pos hlt]

/-- Digit pair `j` from the left is byte `15 - j`. -/
lemma substr_word {j : ℕ} (hj : j < 16) :
    substr (hexText p.word) (2 + 2 * j) 2 = some (hexByte 16 p.dataDigits (15 - j)) := by
  have hlen := length_hexWord 16 p.dataDigits
  have hle : 2 * j ≤ (hexWord 16 p.dataDigits).length := by omega
  have hpos : 2 + 2 * j ≤ (hexText p.word).length := by
    simp only [hexText, word, List.length_cons, List.length_append, hlen]
    omega
  have hslice : (hexText p.word).drop (2 + 2 * j) = (hexWord 16 p.dataDigits).drop (2 * j)
      ++ if p.dataDigits.length = 33 then [' '] else [] := by
    rw [hexText, Nat.add_comm, ← List.drop_append_of_le_length hle]
    rfl
  have hbyte : 2 * 16 - 2 - 2 * (15 - j) = 2 * j := by omega
  rw [substr, if_pos hpos, hslice, List.take_append_of_le_length, hexByte, hbyte]
  rw [List.length_drop, hlen]
  omega

/-- One byte is counted. -/
lemma compareByte_word (largeBuffer : ℕ → ℕ) (t : Tally) {j : ℕ} (hj : j < 16) :
    compareByte largeBuffer ((p.addr % 2 ^ 20 : ℕ) : ℤ) (hexText p.word) t j
      = some (if p.Held largeBuffer (15 - j)
          then { t with total := t.total + 1, passed := t.passed + 1 }
          else { t with total := t.total + 1, error := t.error + 1 }) := by
  have hindex : (((p.addr % 2 ^ 20 : ℕ) : ℤ) + 15 - j).toNat = p.addr % 2 ^ 20 + (15 - j) := by omega
  have hword : (2 : ℕ) ^ 128 = 256 ^ 16 := by norm_num
  have hheld : ((largeBuffer (p.addr % 2 ^ 20 + (15 - j)) : ℤ)
      = (ofDigits 16 (hexByte 16 p.dataDigits (15 - j)) : ℕ)) ↔ p.Held largeBuffer (15 - j) := by
    rw [Int.natCast_inj, Held, hword, byte_mod (by omega), ofDigits_hexByte p.data_digits (by omega),
      value]
  rw [compareByte, p.substr_word hj]
  simp only [Option.bind_eq_bind, Option.bind_some, stoi_hexByte (by decide : 0 < 16) p.data_digits,
    hindex, hheld, Option.pure_def]

/-- The number of bytes of the word that the large buffer holds. -/
def heldCount (largeBuffer : ℕ → ℕ) : ℕ := (List.range 16).countP (p.Held largeBuffer ·)

lemma heldCount_le (largeBuffer : ℕ → ℕ) : p.heldCount largeBuffer ≤ 16 :=
  List.countP_le_length

lemma heldCount_eq_iff (largeBuffer : ℕ → ℕ) :
    p.heldCount largeBuffer = 16 ↔ ∀ b < 16, p.Held largeBuffer b := by
  have h := List.countP_eq_length (p := fun b => decide (p.Held largeBuffer b)) (l := List.range 16)
  rw [List.length_range] at h
  rw [heldCount, h]
  simp

/-- **One row of the comparison.** -/
lemma compareRow_row (largeBuffer : ℕ → ℕ) (t : Tally) : compareRow largeBuffer t p.row
    = some ⟨t.total + 16, t.passed + p.heldCount largeBuffer,
        t.error + (16 - p.heldCount largeBuffer)⟩ := by
  obtain ⟨hcut, hstoi⟩ := p.stoi_addr
  have hbytes : (List.range 16).foldlM
      (compareByte largeBuffer ((p.addr % 2 ^ 20 : ℕ) : ℤ) (hexText p.word)) { t with error := 0 }
        = some ⟨t.total + 16, t.passed + p.heldCount largeBuffer, 16 - p.heldCount largeBuffer⟩ := by
    have hrun := foldlM_eq_some_foldl (fun t j hj =>
      p.compareByte_word largeBuffer t (List.mem_range.mp hj)) { t with error := 0 }
    -- the bytes are counted from the right
    have hreverse : (List.range 16).countP (fun j => p.Held largeBuffer (15 - j))
        = p.heldCount largeBuffer := by
      have hrange : (List.range 16).map (15 - ·) = (List.range 16).reverse := by decide
      have hmap := List.countP_map (p := fun b => decide (p.Held largeBuffer b)) (f := (15 - ·))
        (l := List.range 16)
      rw [hrange, List.countP_reverse] at hmap
      exact hmap.symm
    have hrest : (List.range 16).countP (fun j => ¬ p.Held largeBuffer (15 - j))
        = 16 - p.heldCount largeBuffer := by
      have hcount := List.length_eq_countP_add_countP
        (fun j => decide (p.Held largeBuffer (15 - j))) (l := List.range 16)
      simp only [hreverse, List.length_range, decide_eq_true_eq] at hcount
      omega
    rw [hrun, foldl_tally, hreverse, hrest, List.length_range, Nat.zero_add]
  rw [row, compareRow]
  simp only [hcut, Option.bind_eq_bind, Option.bind_some, hstoi, hbytes]
  rfl

lemma rowOf_row : RowOf [',', '\n'] p.row := by
  have haddr : ',' ∉ hexText p.addrDigits := not_mem_hexText p.addr_digits (by decide) (by decide)
  have hword : '\n' ∉ hexText p.word := by
    have hdigits : '\n' ∉ hexText (hexWord 16 p.dataDigits) :=
      not_mem_hexText (hexWord_digits p.data_digits) (by decide) (by decide)
    have hsplit : hexText p.word = hexText (hexWord 16 p.dataDigits)
        ++ if p.dataDigits.length = 33 then [' '] else [] := rfl
    rw [hsplit, List.mem_append, not_or]
    refine ⟨hdigits, ?_⟩
    split_ifs <;> simp
  exact .cons haddr (.cons hword .nil)

end ReadPair

/-- The number of bytes that the large buffer holds, over all reads. -/
def heldTotal (largeBuffer : ℕ → ℕ) (reads : List ReadPair) : ℕ :=
  (reads.map fun p => p.heldCount largeBuffer).sum

lemma heldTotal_cons (largeBuffer : ℕ → ℕ) (p : ReadPair) (reads : List ReadPair) :
    heldTotal largeBuffer (p :: reads) = p.heldCount largeBuffer + heldTotal largeBuffer reads := rfl

lemma heldTotal_le (largeBuffer : ℕ → ℕ) :
    ∀ reads : List ReadPair, heldTotal largeBuffer reads ≤ 16 * reads.length
  | [] => le_rfl
  | p :: reads => by
      have ih := heldTotal_le largeBuffer reads
      have hp := p.heldCount_le largeBuffer
      rw [heldTotal_cons, List.length_cons]
      omega

/-- All bytes are held when every word is. -/
lemma heldTotal_eq_iff (largeBuffer : ℕ → ℕ) : ∀ reads : List ReadPair,
    heldTotal largeBuffer reads = 16 * reads.length ↔
      ∀ p ∈ reads, ∀ b < 16, p.Held largeBuffer b
  | [] => by simp [heldTotal]
  | p :: reads => by
      have ih := heldTotal_eq_iff largeBuffer reads
      have hle := heldTotal_le largeBuffer reads
      have hp := p.heldCount_le largeBuffer
      rw [heldTotal_cons, List.length_cons, List.forall_mem_cons, ← ih, ← p.heldCount_eq_iff]
      omega

/-- **The comparison of a result file.** -/
theorem resultCheck_rows (largeBuffer : ℕ → ℕ) (reads : List ReadPair) :
    resultCheck largeBuffer ((reads.map ReadPair.row).flatMap (printRow [',', '\n']))
      = some ⟨16 * reads.length, heldTotal largeBuffer reads,
          16 * reads.length - heldTotal largeBuffer reads⟩ := by
  have hrows : readRows [',', '\n'] ((reads.map ReadPair.row).flatMap (printRow [',', '\n']))
      = some (reads.map ReadPair.row) := by
    refine readRows_printRows (by decide) ?_
    intro row hrow
    obtain ⟨p, -, rfl⟩ := List.mem_map.mp hrow
    exact p.rowOf_row
  have hloop : ∀ (reads : List ReadPair) (t : Tally),
      (reads.map ReadPair.row).foldlM (compareRow largeBuffer) t
        = some ⟨t.total + 16 * reads.length, t.passed + heldTotal largeBuffer reads,
            t.error + (16 * reads.length - heldTotal largeBuffer reads)⟩ := by
    intro reads
    induction reads with
    | nil =>
        intro t
        rfl
    | cons p reads ih =>
        intro t
        have hle := heldTotal_le largeBuffer reads
        have hp := p.heldCount_le largeBuffer
        rw [List.map_cons, foldlM_cons_some (p.compareRow_row largeBuffer t), ih, heldTotal_cons,
          List.length_cons]
        simp only [Option.some_inj, Tally.mk.injEq]
        omega
  rw [resultCheck, hrows, Option.bind_eq_bind, Option.bind_some, hloop]
  simp only [Nat.zero_add]

/-- **The flexnlp verdict is sound and complete**: on every log, whatever stands between the reads,
sixteen checks are made for each read, each passes or fails, and the testbench passes exactly when
the large buffer holds every byte of every word read. -/
theorem verdict_iff (largeBuffer : ℕ → ℕ) (banner : Str) (items : List (QuietLine ⊕ ReadPair)) :
    ∃ file t, extractFlexnlpResult (banner :: logLines items) = some file ∧
      resultCheck largeBuffer file = some t ∧
      t.total = 16 * (logReads items).length ∧ t.passed + t.error = t.total ∧
      (t.Passed ↔ ∀ p ∈ logReads items, ∀ b < 16,
        largeBuffer (p.addr % 2 ^ 20 + b) = p.value % 2 ^ 128 / 256 ^ b % 256) := by
  have hle := heldTotal_le largeBuffer (logReads items)
  refine ⟨_, _, extractFlexnlpResult_log banner items, resultCheck_rows largeBuffer _, rfl, ?_, ?_⟩
  · simp only
    omega
  · rw [Tally.Passed, eq_comm, heldTotal_eq_iff]
    rfl

end ThreeLaSim
