import ThreeLaSim.Core.LockStep
import ThreeLaSim.Flexnlp.ProgFragGen
import ThreeLaSim.Flexnlp.SourceInput

/-!
# `maxpool_sim_main`: two models driven from two files

`source_input` reads the relay file and the flexnlp file in lock-step.  In each turn it puts one row
of either file on the ports of its model, as far as the file has one, and waits 10 ns behind every row
but the one that ends the relay file.  `run` looks at the ports every 100 ns and starts the
comparison when both models have been handed the last row of their file.

* `sourceInput` — the driver, from the texts of the two files.
* **`sourceInput_eq`** — what it drives, for a relay program and a command trace of any lengths.
* **`maxpoolSim_starts`** — no row is skipped, and the comparison starts when all rows are handed over,
  not before.
* **`traffic_at_comparison`** — the bytes the two models have been sent by then, for a trace and the
  relay file made of it.
-/

namespace ThreeLaSim

open CText BlockStore LockStep

/-! ## The ports -/

/-- The ports of the relay model that the driver assigns behind the reset. -/
structure RelayPorts where
  relayFuncRunIn : Str
  relayFuncIdIn : Str
  relayDataInIn : ℤ
  dataInYIn : Str
  dataInXIn : Str
  poolSizeYIn : Str
  poolSizeXIn : Str
  stridesYIn : Str
  stridesXIn : Str
  deriving DecidableEq, Repr

/-- The ports of the flexnlp model. -/
structure FlexPorts where
  flexWrIn : ℕ
  flexRdIn : ℕ
  flexAddrIn : Str
  flexDataIn : List Str
  deriving DecidableEq, Repr

/-- Relay ports behind the reset. -/
def RelayPorts.reset : RelayPorts where
  relayFuncRunIn := "0".toList
  relayFuncIdIn := "0".toList
  relayDataInIn := 0
  dataInYIn := "0".toList
  dataInXIn := "0".toList
  poolSizeYIn := "0".toList
  poolSizeXIn := "0".toList
  stridesYIn := "0".toList
  stridesXIn := "0".toList

/-- Flexnlp ports behind the reset. -/
def FlexPorts.reset : FlexPorts where
  flexWrIn := 0
  flexRdIn := 0
  flexAddrIn := "0x0".toList
  flexDataIn := List.replicate 16 "0x0".toList

/-- All ports behind the reset. -/
def resetPorts : RelayPorts × FlexPorts := (.reset, .reset)

/-! ## The driver -/

/-- The ports, what is left of the two files, and what the ports held during each wait. -/
structure SourceState where
  relay : RelayPorts
  flex : FlexPorts
  finRelay : Str
  finFlex : Str
  held : List (RelayPorts × FlexPorts)

/-- `wait(10, SC_NS)`. -/
def SourceState.wait (st : SourceState) : SourceState :=
  { st with held := st.held ++ [(st.relay, st.flex)] }

/-- The last six fields of a row with a command. -/
def commandDelims : List Char := [',', ',', ',', ',', ',', '\n']

/-- The branch for a call of the max pooling. -/
def maxpoolCall (ports : RelayPorts) : List Str → Option RelayPorts
  | [dataInY, dataInX, poolY, poolX, strideY, strideX] => do
      guard (strideX ≠ [])
      return { ports with
        relayDataInIn := 0
        dataInYIn := dataInY
        dataInXIn := dataInX
        poolSizeYIn := poolY
        poolSizeXIn := poolX
        stridesYIn := strideY
        stridesXIn := stripCr strideX }
  | _ => none

/-- The branch for a store.  Pooling sizes and strides are read and dropped. -/
def storeCall (ports : RelayPorts) : List Str → Option RelayPorts
  | [dataInY, dataInX, _, _, _, strideX] => do
      guard (strideX ≠ [])
      let dataByteInt ← stoi 16 dataInX
      return { ports with relayDataInIn := dataByteInt, dataInYIn := dataInY }
  | _ => none

/-- The first half of a turn, and whether it read a row. -/
def readRelay (st : SourceState) : Option (SourceState × ℕ) :=
  if st.finRelay = [] then some (st, 0)
  else do
    match ← getRow [',', ',', ','] st.finRelay with
    | ([_, funcRun, funcId], fin) =>
        let ports := { st.relay with relayFuncRunIn := funcRun, relayFuncIdIn := funcId }
        if funcId = "1".toList then
          let (fields, fin) ← getRow commandDelims fin
          let ports ← maxpoolCall ports fields
          return ({ st with relay := ports, finRelay := fin }.wait, 1)
        else if funcId = "2".toList then
          let (fields, fin) ← getRow commandDelims fin
          let ports ← storeCall ports fields
          return ({ st with relay := ports, finRelay := fin }.wait, 1)
        else
          -- the end of the file: no wait
          let (_, fin) ← getRow ['\n'] fin
          return ({ st with relay := ports, finRelay := fin }, 1)
    | _ => none

/-- What a flexnlp row puts on the ports. -/
def flexPorts (mode addr data : Str) : Option FlexPorts := do
  let addr ← substrFrom addr 2
  let bytes ← cosimBytes data
  return {
    flexWrIn := if mode = "W".toList then 1 else 0
    flexRdIn := if mode = "W".toList then 0 else 1
    flexAddrIn := "0x00".toList ++ addr
    flexDataIn := bytes.map hexText }

/-- The second half of a turn. -/
def readFlex (st : SourceState) : Option (SourceState × ℕ) :=
  if st.finFlex = [] then some (st, 0)
  else do
    match ← getRow traceDelims st.finFlex with
    | ([_, mode, addr, data], fin) =>
        let ports ← flexPorts mode addr data
        return ({ st with flex := ports, finFlex := fin }.wait, 1)
    | _ => none

/-- The loop: it ends with a turn that reads no row. -/
def sourceLoop : ℕ → SourceState → Option SourceState
  | 0, _ => none
  | fuel + 1, st => do
      let (st, fromRelay) ← readRelay st
      let (st, fromFlex) ← readFlex st
      if fromRelay + fromFlex = 0 then return st else sourceLoop fuel st

/-- `source_input` on the texts of the two files; every turn but the last reads a character. -/
def sourceInput (finRelay finFlex : Str) : Option SourceState :=
  sourceLoop (finRelay.length + finFlex.length + 1) ⟨.reset, .reset, finRelay, finFlex, []⟩

/-! ## Rows -/

/-- A row of a relay program. -/
inductive RelayRow
  | store (s : RelayStore)
  | maxpool (height width : ℕ)
  | finish

namespace RelayRow

/-- The nine fields. -/
def fields : RelayRow → List Str
  | store s => storeFields s.addr s.byteText
  | maxpool y x => maxpoolFields y x
  | finish => endFields

/-- The ports behind the row. -/
def drive (p : RelayPorts) : RelayRow → RelayPorts
  | store s => { p with
      relayFuncRunIn := "1".toList
      relayFuncIdIn := "2".toList
      relayDataInIn := ofDigits 16 s.byteText
      dataInYIn := hexText ('0' :: Nat.toDigits 16 s.addr) }
  | maxpool y x =>
      { relayFuncRunIn := "1".toList
        relayFuncIdIn := "1".toList
        relayDataInIn := 0
        dataInYIn := hexText ('0' :: Nat.toDigits 16 y)
        dataInXIn := hexText ('0' :: Nat.toDigits 16 x)
        poolSizeYIn := "2".toList
        poolSizeXIn := "1".toList
        stridesYIn := "2".toList
        stridesXIn := "1".toList }
  | finish => { p with relayFuncRunIn := "0".toList, relayFuncIdIn := "3".toList }

/-- The driver waits behind every row but the last. -/
def waits : RelayRow → Bool
  | store _ | maxpool .. => true
  | finish => false

/-- The row as the driver reads it. -/
lemma rowOf_fields : ∀ r : RelayRow, RowOf relayDelims r.fields
  | store s => by
      refine rowOf_relayDelims ?_ (by decide)
      simp only [List.forall_mem_cons, List.not_mem_nil, false_imp_iff, implies_true, and_true]
      exact ⟨by decide, by decide, by decide, comma_not_mem_hexText (isDigit_toDigits s.addr),
        comma_not_mem_hexText s.byte_digits, by decide, by decide, by decide⟩
  | maxpool y x => by
      refine rowOf_relayDelims ?_ (by decide)
      simp only [List.forall_mem_cons, List.not_mem_nil, false_imp_iff, implies_true, and_true]
      exact ⟨by decide, by decide, by decide, comma_not_mem_hexText (isDigit_toDigits y),
        comma_not_mem_hexText (isDigit_toDigits x), by decide, by decide, by decide⟩
  | finish => rowOf_relayDelims (by decide) (by decide)

/-- The first three fields of a row, and the rest of the file. -/
lemma getRow_head {a b c d e f g h i : Str} (hrow : RowOf relayDelims [a, b, c, d, e, f, g, h, i])
    (rest : Str) : getRow [',', ',', ','] (printRow relayDelims [a, b, c, d, e, f, g, h, i] ++ rest) =
      some ([a, b, c], printRow commandDelims [d, e, f, g, h, i] ++ rest) := by
  obtain _ | ⟨ha, _ | ⟨hb, _ | ⟨hc, _⟩⟩⟩ := hrow
  have hhead : RowOf [',', ',', ','] [a, b, c] := .cons ha (.cons hb (.cons hc .nil))
  have hsplit : printRow relayDelims [a, b, c, d, e, f, g, h, i] ++ rest =
      printRow [',', ',', ','] [a, b, c] ++ (printRow commandDelims [d, e, f, g, h, i] ++ rest) := by
    simp [printRow, relayDelims, commandDelims]
  rw [hsplit]
  exact getRow_printRow hhead _

/-- The last six fields. -/
lemma getRow_tail {a b c d e f g h i : Str} (hrow : RowOf relayDelims [a, b, c, d, e, f, g, h, i])
    (rest : Str) : getRow commandDelims (printRow commandDelims [d, e, f, g, h, i] ++ rest) =
      some ([d, e, f, g, h, i], rest) := by
  obtain _ | ⟨_, _ | ⟨_, _ | ⟨_, htail⟩⟩⟩ := hrow
  exact getRow_printRow htail rest

/-- The last six fields as one line. -/
lemma getRow_line {d e f g h i : Str} (hline : ∀ s ∈ [d, e, f, g, h, i], '\n' ∉ s) (rest : Str) :
    ∃ line, getRow ['\n'] (printRow commandDelims [d, e, f, g, h, i] ++ rest) = some (line, rest) := by
  have hsplit : printRow commandDelims [d, e, f, g, h, i] ++ rest =
      printRow ['\n'] [[','].intercalate [d, e, f, g, h, i]] ++ rest := by
    simp [printRow, commandDelims, List.intercalate]
  have hrow : RowOf ['\n'] [[','].intercalate [d, e, f, g, h, i]] := by
    refine .cons ?_ .nil
    simp only [List.forall_mem_cons, List.not_mem_nil, false_imp_iff, implies_true, and_true]
      at hline
    simp [List.intercalate, hline]
  rw [hsplit]
  exact ⟨_, getRow_printRow hrow rest⟩

lemma printRow_fields_ne_nil (r : RelayRow) (rest : Str) :
    printRow relayDelims r.fields ++ rest ≠ [] := by
  cases r with
  | store | maxpool | finish =>
      simp [fields, storeFields, maxpoolFields, endFields, printRow, relayDelims]

end RelayRow

/-- A store puts its byte and its address on the ports. -/
lemma storeCall_fields (s : RelayStore) (ports : RelayPorts) :
    storeCall ports [hexText ('0' :: Nat.toDigits 16 s.addr), hexText ('0' :: s.byteText),
      "0".toList, "0".toList, "0".toList, "0".toList] =
      some { ports with
        relayDataInIn := ofDigits 16 s.byteText
        dataInYIn := hexText ('0' :: Nat.toDigits 16 s.addr) } := by
  have hlast : "0".toList ≠ [] := by decide
  have hdigits : ∀ c ∈ '0' :: s.byteText, isDigit 16 c = true :=
    List.forall_mem_cons.mpr ⟨by decide, s.byte_digits⟩
  have hlt : ofDigits 16 s.byteText < 2 ^ 31 := by
    have hbound := ofDigits_lt s.byte_digits
    rw [s.byte_length] at hbound
    omega
  dsimp only [storeCall]
  rw [guard, if_pos hlast, stoi_hexText (List.cons_ne_nil _ _) hdigits, ofDigits_cons_zero,
    if_pos hlt]
  rfl

/-- **The first half of a turn** on a row of a relay program. -/
theorem readRelay_row (r : RelayRow) (rp : RelayPorts) (fp : FlexPorts) (rest finFlex : Str)
    (held : List (RelayPorts × FlexPorts)) :
    readRelay ⟨rp, fp, printRow relayDelims r.fields ++ rest, finFlex, held⟩ =
      some (⟨r.drive rp, fp, rest, finFlex,
        held ++ if r.waits then [(r.drive rp, fp)] else []⟩, 1) := by
  have hne := r.printRow_fields_ne_nil rest
  have hrow := r.rowOf_fields
  unfold readRelay
  rw [if_neg hne]
  cases r with
  | store s =>
      have hid : "2".toList ≠ "1".toList := by decide
      rw [RelayRow.fields, storeFields] at hrow ⊢
      rw [RelayRow.getRow_head hrow, Option.bind_eq_bind, Option.bind_some]
      dsimp only
      rw [if_neg hid, if_pos rfl, RelayRow.getRow_tail hrow, Option.bind_some]
      dsimp only
      rw [storeCall_fields]
      rfl
  | maxpool y x =>
      have hlast : "1".toList ≠ [] := by decide
      have hcr : stripCr "1".toList = "1".toList := by decide
      rw [RelayRow.fields, maxpoolFields] at hrow ⊢
      rw [RelayRow.getRow_head hrow, Option.bind_eq_bind, Option.bind_some]
      dsimp only
      rw [if_pos rfl, RelayRow.getRow_tail hrow, Option.bind_some]
      dsimp only [maxpoolCall]
      rw [guard, if_pos hlast, hcr]
      rfl
  | finish =>
      have hone : "3".toList ≠ "1".toList := by decide
      have htwo : "3".toList ≠ "2".toList := by decide
      obtain ⟨line, hline⟩ := @RelayRow.getRow_line "0x0000dead".toList "0x0".toList "0".toList
        "0".toList "0".toList "0".toList (by decide) rest
      rw [RelayRow.fields, endFields] at hrow ⊢
      rw [RelayRow.getRow_head hrow, Option.bind_eq_bind, Option.bind_some]
      dsimp only
      rw [if_neg hone, if_neg htwo, hline, RelayRow.waits, if_neg Bool.false_ne_true,
        List.append_nil]
      rfl

/-- A row of the flexnlp file: a command, or the row that ends the file. -/
inductive FlexSimRow
  | command (r : TraceRow)
  | finish

namespace FlexSimRow

/-- The first field. -/
def tag : FlexSimRow → Str
  | command r => r.tag
  | finish => "2".toList

/-- The mode as printed. -/
def mode : FlexSimRow → Str
  | command r => r.mode
  | finish => "W".toList

/-- The address behind its `0x`. -/
def addrDigits : FlexSimRow → Str
  | command r => r.addrDigits
  | finish => "0000dead".toList

/-- The data behind its `0x`. -/
def dataDigits : FlexSimRow → Str
  | command r => r.dataDigits
  | finish => "0".toList

/-- The four fields. -/
def fields (r : FlexSimRow) : List Str :=
  [r.tag, r.mode, hexText r.addrDigits, hexText r.dataDigits]

/-- The ports behind the row, whatever they held before. -/
def drive (_ : FlexPorts) (r : FlexSimRow) : FlexPorts where
  flexWrIn := if r.mode = "W".toList then 1 else 0
  flexRdIn := if r.mode = "W".toList then 0 else 1
  flexAddrIn := hexText ('0' :: '0' :: r.addrDigits)
  flexDataIn := (List.range 16).map fun i => hexText (hexByte 16 r.dataDigits i)

lemma addr_digits : ∀ r : FlexSimRow, ∀ c ∈ r.addrDigits, isDigit 16 c = true
  | command r => r.addr_digits
  | finish => List.all_eq_true.mp (by decide)

lemma data_digits : ∀ r : FlexSimRow, ∀ c ∈ r.dataDigits, isDigit 16 c = true
  | command r => r.data_digits
  | finish => List.all_eq_true.mp (by decide)

lemma rowOf_fields (r : FlexSimRow) : RowOf traceDelims r.fields := by
  have htag : ',' ∉ r.tag := by
    cases r with
    | command r => exact r.comma_not_mem_tag
    | finish => decide
  have hmode : ',' ∉ r.mode := by
    cases r with
    | command r =>
        show ',' ∉ r.mode
        unfold TraceRow.mode
        split <;> decide
    | finish => decide
  have haddr : ',' ∉ hexText r.addrDigits := not_mem_hexText r.addr_digits (by decide) (by decide)
  have hdata : '\n' ∉ hexText r.dataDigits := not_mem_hexText r.data_digits (by decide) (by decide)
  exact .cons htag (.cons hmode (.cons haddr (.cons hdata .nil)))

end FlexSimRow

/-- The ports of a row with an address and data in hexadecimal digits. -/
lemma flexPorts_hexText (mode addrDigits dataDigits : Str) :
    flexPorts mode (hexText addrDigits) (hexText dataDigits) = some {
      flexWrIn := if mode = "W".toList then 1 else 0
      flexRdIn := if mode = "W".toList then 0 else 1
      flexAddrIn := hexText ('0' :: '0' :: addrDigits)
      flexDataIn := (List.range 16).map fun i => hexText (hexByte 16 dataDigits i) } := by
  have hcut : substrFrom (hexText addrDigits) 2 = some addrDigits :=
    @substrFrom_append ['0', 'x'] addrDigits 2 rfl
  rw [flexPorts, hcut, cosimBytes_hexText, Option.bind_eq_bind, Option.bind_some,
    Option.bind_eq_bind, Option.bind_some, List.map_map]
  rfl

/-- **The second half of a turn** on a row. -/
theorem readFlex_row (r : FlexSimRow) (rp : RelayPorts) (fp : FlexPorts) (finRelay rest : Str)
    (held : List (RelayPorts × FlexPorts)) :
    readFlex ⟨rp, fp, finRelay, printRow traceDelims r.fields ++ rest, held⟩ =
      some (⟨rp, r.drive fp, finRelay, rest, held ++ [(rp, r.drive fp)]⟩, 1) := by
  have hne : printRow traceDelims r.fields ++ rest ≠ [] := by
    simp [FlexSimRow.fields, printRow, traceDelims]
  unfold readFlex
  rw [if_neg hne, getRow_printRow r.rowOf_fields, Option.bind_eq_bind, Option.bind_some]
  dsimp only [FlexSimRow.fields]
  rw [flexPorts_hexText]
  rfl

/-! ## A whole run -/

/-- The rows of a relay program. -/
def RelayProgram.simRows (p : RelayProgram) : List RelayRow :=
  p.stores.map .store ++ [.maxpool p.numTimesteps (p.numVectors * 16), .finish]

/-- The rows of a command trace that is ended by its last row. -/
def flexSimRows (trace : List TraceRow) : List FlexSimRow := trace.map .command ++ [.finish]

/-- The text of rows of a relay file. -/
def relayRowsText (rows : List RelayRow) : Str :=
  (rows.map RelayRow.fields).flatMap (printRow relayDelims)

/-- The text of rows of a flexnlp file. -/
def flexRowsText (rows : List FlexSimRow) : Str :=
  (rows.map FlexSimRow.fields).flatMap (printRow traceDelims)

/-- The text of the flexnlp file. -/
def flexSimText (trace : List TraceRow) : Str := flexRowsText (flexSimRows trace)

lemma readRelay_nil (rp : RelayPorts) (fp : FlexPorts) (finFlex : Str)
    (held : List (RelayPorts × FlexPorts)) :
    readRelay ⟨rp, fp, [], finFlex, held⟩ = some (⟨rp, fp, [], finFlex, held⟩, 0) := rfl

lemma readFlex_nil (rp : RelayPorts) (fp : FlexPorts) (finRelay : Str)
    (held : List (RelayPorts × FlexPorts)) :
    readFlex ⟨rp, fp, finRelay, [], held⟩ = some (⟨rp, fp, finRelay, [], held⟩, 0) := rfl

/-- One turn of the loop, when both halves succeed. -/
lemma sourceLoop_succ {st st' st'' : SourceState} {n m : ℕ} (hrelay : readRelay st = some (st', n))
    (hflex : readFlex st' = some (st'', m)) (fuel : ℕ) : sourceLoop (fuel + 1) st =
      if n + m = 0 then some st'' else sourceLoop fuel st'' := by
  rw [sourceLoop, hrelay, Option.bind_eq_bind, Option.bind_some]
  dsimp only
  rw [hflex, Option.bind_some]
  rfl

/-- **The loop on two files**: it drives the rows in lock-step and reads both files to their ends. -/
theorem sourceLoop_rows (as : List RelayRow) (bs : List FlexSimRow) (fuel : ℕ)
    (hfuel : as.length + bs.length < fuel) (rp : RelayPorts) (fp : FlexPorts)
    (held : List (RelayPorts × FlexPorts)) :
    sourceLoop fuel ⟨rp, fp, relayRowsText as, flexRowsText bs, held⟩ =
      some ⟨as.foldl RelayRow.drive rp, bs.foldl FlexSimRow.drive fp, [], [],
        held ++ slots RelayRow.drive FlexSimRow.drive RelayRow.waits (rp, fp) (turns as bs)⟩ := by
  induction as, bs using turns.induct generalizing fuel rp fp held with
  | case1 =>
      obtain ⟨fuel, rfl⟩ := Nat.exists_eq_add_of_lt hfuel
      have hturn := sourceLoop_succ (readRelay_nil rp fp [] held) (readFlex_nil rp fp [] held)
      rw [turns, slots, List.append_nil]
      exact hturn _
  | case2 a as ih =>
      cases fuel with
      | zero => cases hfuel
      | succ fuel =>
          have hrelay := readRelay_row a rp fp (relayRowsText as) [] held
          have hrest := ih fuel (by simp at hfuel ⊢; omega) (a.drive rp) fp
            (held ++ if a.waits then [(a.drive rp, fp)] else [])
          have hturn := sourceLoop_succ hrelay (readFlex_nil _ _ _ _) fuel
          rw [relayRowsText, List.map_cons, List.flatMap_cons]
          refine hturn.trans (hrest.trans ?_)
          rw [turns, slots]
          simp
  | case3 b bs ih =>
      cases fuel with
      | zero => cases hfuel
      | succ fuel =>
          have hflex := readFlex_row b rp fp [] (flexRowsText bs) held
          have hrest := ih fuel (by simp at hfuel ⊢; omega) rp (b.drive fp)
            (held ++ [(rp, b.drive fp)])
          have hturn := sourceLoop_succ (readRelay_nil _ _ _ _) hflex fuel
          rw [flexRowsText, List.map_cons, List.flatMap_cons]
          refine hturn.trans (hrest.trans ?_)
          rw [turns, slots]
          simp
  | case4 a as b bs ih =>
      cases fuel with
      | zero => cases hfuel
      | succ fuel =>
          have hrelay := readRelay_row a rp fp (relayRowsText as) (flexRowsText (b :: bs)) held
          have hflex := readFlex_row b (a.drive rp) fp (relayRowsText as) (flexRowsText bs)
            (held ++ if a.waits then [(a.drive rp, fp)] else [])
          have hrest := ih fuel (by simp at hfuel ⊢; omega) (a.drive rp) (b.drive fp)
            (held ++ (if a.waits then [(a.drive rp, fp)] else []) ++ [(a.drive rp, b.drive fp)])
          have hturn := sourceLoop_succ hrelay hflex fuel
          rw [relayRowsText, List.map_cons, List.flatMap_cons]
          refine hturn.trans (hrest.trans ?_)
          rw [turns, slots]
          simp

/-- A relay program row by row. -/
lemma RelayProgram.text_eq (p : RelayProgram) : p.text = relayRowsText p.simRows := by
  have hstore : ∀ s : RelayStore, storeRow "W".toList s.addr s.byteText ++ ['\n'] =
      printRow relayDelims (storeFields s.addr s.byteText) := by
    intro s
    rw [storeRow_write, storeFields, printRow_relayDelims]
  have hmaxpool : ∀ y x, maxpoolRow y x ++ ['\n'] = printRow relayDelims (maxpoolFields y x) := by
    intro y x
    rw [maxpoolRow_eq, maxpoolFields, printRow_relayDelims]
  have hend : endRow ++ ['\n'] = printRow relayDelims endFields := by
    rw [endRow_eq, endFields, printRow_relayDelims]
  rw [text, rows, relayRowsText, simRows, List.map_append, List.flatMap_append, List.flatMap_append,
    List.map_map, List.flatMap_map, List.flatMap_map]
  congr 1
  · exact List.flatMap_congr fun s _ => hstore s
  · simp only [List.map_cons, List.map_nil, List.flatMap_cons, List.flatMap_nil, hmaxpool, hend]
    rfl

/-- Every row of a file takes a character at least. -/
lemma length_relayRowsText (rows : List RelayRow) : rows.length ≤ (relayRowsText rows).length := by
  have hrow : ∀ row ∈ rows.map RelayRow.fields, RowOf relayDelims row := by
    intro row hr
    obtain ⟨r, -, rfl⟩ := List.mem_map.mp hr
    exact r.rowOf_fields
  have hlen := length_le_length_printRows (by decide) _ hrow
  rwa [List.length_map] at hlen

lemma length_flexRowsText (rows : List FlexSimRow) : rows.length ≤ (flexRowsText rows).length := by
  have hrow : ∀ row ∈ rows.map FlexSimRow.fields, RowOf traceDelims row := by
    intro row hr
    obtain ⟨r, -, rfl⟩ := List.mem_map.mp hr
    exact r.rowOf_fields
  have hlen := length_le_length_printRows (by decide) _ hrow
  rwa [List.length_map] at hlen

/-- The ports behind some rows of the two files. -/
def simPorts (rows : List RelayRow × List FlexSimRow) : RelayPorts × FlexPorts :=
  ports RelayRow.drive FlexSimRow.drive resetPorts rows

/-- The rows of the two files that were read up to a wait. -/
def simRead (p : RelayProgram) (trace : List TraceRow) (k : ℕ) :
    List RelayRow × List FlexSimRow :=
  readAt RelayRow.waits p.simRows (flexSimRows trace) k

/-- What the ports hold during the `k`-th wait, and from the last one on. -/
def SourceState.portsAt (st : SourceState) (k : ℕ) : RelayPorts × FlexPorts :=
  timeline st.held (st.relay, st.flex) k

/-- **What the driver drives**: it reads both files to their ends, and at any time the ports show the
rows read so far. -/
theorem sourceInput_eq (p : RelayProgram) (trace : List TraceRow) :
    ∃ st, sourceInput p.text (flexSimText trace) = some st ∧ st.finRelay = [] ∧ st.finFlex = [] ∧
      ∀ k, st.portsAt k = simPorts (simRead p trace k) := by
  have hrelay := length_relayRowsText p.simRows
  have hflex := length_flexRowsText (flexSimRows trace)
  have hloop := sourceLoop_rows p.simRows (flexSimRows trace)
    ((relayRowsText p.simRows).length + (flexRowsText (flexSimRows trace)).length + 1)
    (by omega) .reset .reset []
  rw [← p.text_eq] at hloop
  refine ⟨_, hloop, rfl, rfl, ?_⟩
  intro k
  rw [SourceState.portsAt, List.nil_append]
  exact timeline_ports RelayRow.drive FlexSimRow.drive RelayRow.waits resetPorts p.simRows
      (flexSimRows trace) k

/-! ## The start of the comparison -/

/-- The number a port takes from a text: hexadecimal behind `0x`, decimal otherwise. -/
def portValue (text : Str) : Option ℕ :=
  match hexValue text with
  | some n => some n
  | none => if text ≠ [] ∧ text.all (isDigit 10) then some (ofDigits 10 text) else none

lemma portValue_hexText {ds : Str} (hne : ds ≠ []) (hds : ∀ c ∈ ds, isDigit 16 c = true) :
    portValue (hexText ds) = some (ofDigits 16 ds) := by
  rw [portValue, hexValue_hexText hne hds]

/-- The function the relay model is called for. -/
def RelayPorts.funcId (p : RelayPorts) : Option ℕ := (portValue p.relayFuncIdIn).map (· % 2 ^ 8)

/-- The address the flexnlp model is given. -/
def FlexPorts.addr (p : FlexPorts) : Option ℕ := (portValue p.flexAddrIn).map (· % 2 ^ 32)

/-- What `run` waits for: the function of the end row is on the relay ports and the address of the
end row on the flexnlp ports.  `run` polls `relay_i.relay_relay_func_id` and `flex_i.flex_addr_in`,
variables of the generated models, which are taken to hold what is on the ports of their names. -/
def StopCondition (p : RelayPorts × FlexPorts) : Prop :=
  p.1.funcId = some 3 ∧ p.2.addr = some 0x0dead

instance : DecidablePred StopCondition := fun _ => inferInstanceAs (Decidable (_ ∧ _))

/-- A row of the relay file calls for the end. -/
def RelayRow.Ends (r : RelayRow) : Prop := (r.drive .reset).funcId = some 3

/-- A row of the flexnlp file calls for the end. -/
def FlexSimRow.Ends (r : FlexSimRow) : Prop := (r.drive .reset).addr = some 0x0dead

lemma RelayRow.ends_finish : RelayRow.finish.Ends := by
  show (RelayRow.finish.drive .reset).funcId = some 3
  decide

lemma RelayRow.not_ends_of_mem {p : RelayProgram} : ∀ r ∈ p.stores.map RelayRow.store ++
    [.maxpool p.numTimesteps (p.numVectors * 16)], ¬ r.Ends := by
  intro r hr
  rcases List.mem_append.mp hr with hr | hr
  · obtain ⟨s, -, rfl⟩ := List.mem_map.mp hr
    show (portValue "2".toList).map (· % 2 ^ 8) ≠ some 3
    decide
  · obtain rfl := List.mem_singleton.mp hr
    show (portValue "1".toList).map (· % 2 ^ 8) ≠ some 3
    decide

lemma FlexSimRow.ends_finish : FlexSimRow.finish.Ends := by
  show (FlexSimRow.finish.drive .reset).addr = some 0x0dead
  decide

/-- The address of a command, as far as the port holds it. -/
lemma FlexSimRow.addr_command (r : TraceRow) (p : FlexPorts) :
    ((FlexSimRow.command r).drive p).addr = some (r.addr % 2 ^ 32) := by
  have hdigits : ∀ c ∈ '0' :: '0' :: r.addrDigits, isDigit 16 c = true :=
    List.forall_mem_cons.mpr ⟨by decide, List.forall_mem_cons.mpr ⟨by decide, r.addr_digits⟩⟩
  show (portValue (hexText ('0' :: '0' :: r.addrDigits))).map (· % 2 ^ 32) = _
  rw [portValue_hexText (List.cons_ne_nil _ _) hdigits, ofDigits_cons_zero, ofDigits_cons_zero]
  rfl

/-- An aligned address is not that of the end row. -/
lemma FlexSimRow.not_ends_command (r : TraceRow) : ¬ (FlexSimRow.command r).Ends := by
  have haligned : 16 ∣ r.addr := r.aligned
  rw [Ends, addr_command]
  intro h
  have hmod := Option.some.inj h
  omega

/-- The ports show the function of the last relay row. -/
lemma funcId_foldl (l : List RelayRow) : (l.foldl RelayRow.drive .reset).funcId = some 3 ↔
    ∃ r, l.getLast? = some r ∧ r.Ends := by
  induction l using List.reverseRecOn with
  | nil =>
      have hreset : RelayPorts.reset.funcId ≠ some 3 := by decide
      simp [hreset]
  | append_singleton l r =>
      have hsame : ∀ p q : RelayPorts, (r.drive p).funcId = (r.drive q).funcId := by
        intro p q
        cases r <;> rfl
      rw [List.foldl_append, List.foldl_cons, List.foldl_nil, hsame _ .reset]
      simp [RelayRow.Ends]

/-- The ports show the address of the last flexnlp row. -/
lemma addr_foldl (l : List FlexSimRow) : (l.foldl FlexSimRow.drive .reset).addr = some 0x0dead ↔
    ∃ r, l.getLast? = some r ∧ r.Ends := by
  induction l using List.reverseRecOn with
  | nil =>
      have hreset : FlexPorts.reset.addr ≠ some 0x0dead := by decide
      simp [hreset]
  | append_singleton l r =>
      rw [List.foldl_append]
      simp [FlexSimRow.Ends, FlexSimRow.drive]

/-- **The condition of `run` is met when both files are read to their ends**, and not before. -/
theorem stopCondition_iff (p : RelayProgram) (trace : List TraceRow)
    {rows : List RelayRow × List FlexSimRow} (hrelay : rows.1 <+: p.simRows)
    (hflex : rows.2 <+: flexSimRows trace) :
    StopCondition (simPorts rows) ↔ rows = (p.simRows, flexSimRows trace) := by
  have hsplit : p.simRows = (p.stores.map RelayRow.store ++
      [.maxpool p.numTimesteps (p.numVectors * 16)]) ++ [.finish] := by
    simp [RelayProgram.simRows]
  rw [StopCondition, Prod.ext_iff]
  refine and_congr ((funcId_foldl rows.1).trans ?_) ((addr_foldl rows.2).trans ?_)
  · rw [hsplit] at hrelay ⊢
    exact last_iff_eq RelayRow.not_ends_of_mem RelayRow.ends_finish hrelay
  · refine last_iff_eq ?_ FlexSimRow.ends_finish hflex
    intro r hr
    obtain ⟨q, -, rfl⟩ := List.mem_map.mp hr
    exact FlexSimRow.not_ends_command q

lemma waitsUntilLast_simRows (p : RelayProgram) : WaitsUntilLast RelayRow.waits p.simRows := by
  have hinit : p.simRows.dropLast = p.stores.map RelayRow.store ++
      [.maxpool p.numTimesteps (p.numVectors * 16)] := by
    simp [RelayProgram.simRows]
  intro r hr
  rw [hinit] at hr
  rcases List.mem_append.mp hr with hr | hr
  · obtain ⟨s, -, rfl⟩ := List.mem_map.mp hr
    rfl
  · obtain rfl := List.mem_singleton.mp hr
    rfl

/-- The rows of the two files reach the ports in their order: `read k` are those read up to the `k`-th
wait.  No row is skipped, all are read in the end, and the ports show them at any time. -/
structure Delivers (p : RelayProgram) (trace : List TraceRow) (st : SourceState)
    (read : ℕ → List RelayRow × List FlexSimRow) : Prop where
  first : Follows ([], []) (read 0)
  next : ∀ k, Follows (read k) (read (k + 1))
  all : ∃ n, ∀ k, n ≤ k → read k = (p.simRows, flexSimRows trace)
  shown : ∀ k, st.portsAt k = simPorts (read k)

lemma delivers_simRead {p : RelayProgram} {trace : List TraceRow} {st : SourceState}
    (hshown : ∀ k, st.portsAt k = simPorts (simRead p trace k)) :
    Delivers p trace st (simRead p trace) where
  first := follows_readAt_zero (waitsUntilLast_simRows p) (flexSimRows trace)
  next := follows_readAt_succ (waitsUntilLast_simRows p) (flexSimRows trace)
  all := ⟨_, fun _ => readAt_of_length_le⟩
  shown := hshown

/-- The condition of `run` at any time. -/
lemma stopCondition_portsAt {p : RelayProgram} {trace : List TraceRow} {st : SourceState}
    (hshown : ∀ k, st.portsAt k = simPorts (simRead p trace k)) (k : ℕ) :
    StopCondition (st.portsAt k) ↔ simRead p trace k = (p.simRows, flexSimRows trace) := by
  obtain ⟨hrelay, hflex⟩ := readAt_prefix (waitsUntilLast_simRows p) (flexSimRows trace) k
  rw [hshown]
  exact stopCondition_iff p trace hrelay hflex

/-- **The comparison starts, and not before both models have been handed all commands**: whichever
file is longer, and whatever waits the polls of `run` fall into. -/
theorem maxpoolSim_starts (p : RelayProgram) (trace : List TraceRow) :
    ∃ st read, sourceInput p.text (flexSimText trace) = some st ∧ Delivers p trace st read ∧
      (∀ k, StopCondition (st.portsAt k) ↔ read k = (p.simRows, flexSimRows trace)) ∧
      ∀ seen : ℕ → ℕ, (∀ n, ∃ q, n ≤ seen q) → ∃ q, StopCondition (st.portsAt (seen q)) ∧
        ∀ q' < q, ¬ StopCondition (st.portsAt (seen q')) := by
  obtain ⟨st, hrun, -, -, hshown⟩ := sourceInput_eq p trace
  have hdelivers := delivers_simRead hshown
  have hstop := stopCondition_portsAt hshown
  refine ⟨st, _, hrun, hdelivers, hstop, ?_⟩
  intro seen hseen
  obtain ⟨n, hall⟩ := hdelivers.all
  have hlater : ∀ k, n ≤ k → StopCondition (st.portsAt k) := by
    intro k hk
    exact (hstop k).mpr (hall k hk)
  exact exists_first hlater hseen

/-- A relay program that is longer than its trace. -/
theorem maxpoolSim_starts_short : ∃ st, sourceInput deadProgram.text (flexSimText []) = some st ∧
    ∃ q, StopCondition (st.portsAt (97 + 10 * q)) := by
  obtain ⟨st, read, hrun, -, -, hpolls⟩ := maxpoolSim_starts deadProgram []
  obtain ⟨q, hq, -⟩ := hpolls (fun q => 97 + 10 * q) fun n => ⟨n, by omega⟩
  exact ⟨st, hrun, q, hq⟩

/-! ## The traffic up to the comparison

What the generated models do with their ports is not in the repository.  This is about the ports alone:
for each address, the byte that the last store command or write they have shown carried for it.
-/

/-- A look at the relay ports: a store command is noted under its address. -/
def noteStore (m : Mem ℕ) (p : RelayPorts) : Mem ℕ :=
  if portValue p.relayFuncRunIn = some 1 ∧ p.funcId = some 2 then
    match portValue p.dataInYIn with
    | some addr => Function.update m (addr % 2 ^ 32) (some (p.relayDataInIn.toNat % 2 ^ 8))
    | none => m
  else m

/-- A look at the flexnlp ports: a write to the window of the large buffer is noted. -/
def noteWrite (m : Mem ℕ) (p : FlexPorts) : Mem ℕ :=
  match p.addr with
  | some addr =>
      if p.flexWrIn = 1 ∧ addrMin ≤ addr ∧ addr < addrMax then
        storeBlock m addr 16 fun j => (portValue (p.flexDataIn.getD j [])).getD 0
      else m
  | none => m

/-- What is noted of a relay row. -/
def RelayRow.note (m : Mem ℕ) : RelayRow → Mem ℕ
  | store s => Function.update m (s.addr % 2 ^ 32) (some (ofDigits 16 s.byteText))
  | maxpool .. | finish => m

/-- What is noted of a flexnlp row. -/
def FlexSimRow.note (m : Mem ℕ) : FlexSimRow → Mem ℕ
  | command r =>
      if r.write = true ∧ addrMin ≤ r.addr % 2 ^ 32 ∧ r.addr % 2 ^ 32 < addrMax then
        storeBlock m (r.addr % 2 ^ 32) 16 r.byte
      else m
  | finish => m

lemma noteStore_reset (m : Mem ℕ) : noteStore m .reset = m := by
  have hno : ¬ (portValue RelayPorts.reset.relayFuncRunIn = some 1 ∧
      RelayPorts.reset.funcId = some 2) := by decide
  rw [noteStore, if_neg hno]

lemma noteStore_drive (m : Mem ℕ) (p : RelayPorts) (r : RelayRow) :
    noteStore m (r.drive p) = r.note m := by
  cases r with
  | store s =>
      have hyes : portValue "1".toList = some 1 ∧ (portValue "2".toList).map (· % 2 ^ 8) = some 2 := by
        decide
      have haddr : portValue (hexText ('0' :: Nat.toDigits 16 s.addr)) = some s.addr := by
        rw [portValue, hexValue_zero_toDigits]
      have hbyte : ofDigits 16 s.byteText % 2 ^ 8 = ofDigits 16 s.byteText := by
        have hlt := ofDigits_lt s.byte_digits
        rw [s.byte_length] at hlt
        exact Nat.mod_eq_of_lt hlt
      unfold noteStore RelayPorts.funcId
      rw [RelayRow.drive, if_pos hyes]
      simp only [haddr, Int.toNat_natCast, hbyte]
      rfl
  | maxpool y x =>
      have hno : ¬ (portValue "1".toList = some 1 ∧
          (portValue "1".toList).map (· % 2 ^ 8) = some 2) := by decide
      exact if_neg hno
  | finish =>
      have hno : ¬ (portValue "0".toList = some 1 ∧
          (portValue "3".toList).map (· % 2 ^ 8) = some 2) := by decide
      exact if_neg hno

lemma RelayRow.note_note (m : Mem ℕ) (r : RelayRow) : r.note (r.note m) = r.note m := by
  cases r with
  | store s => exact Function.update_idem _ _ _
  | maxpool | finish => rfl

lemma noteWrite_reset (m : Mem ℕ) : noteWrite m .reset = m := by
  have hreset : FlexPorts.reset.addr = some 0 := by decide
  have hno : ¬ (FlexPorts.reset.flexWrIn = 1 ∧ addrMin ≤ 0 ∧ 0 < addrMax) := by decide
  unfold noteWrite
  rw [hreset]
  exact if_neg hno

/-- The ports carry the bytes of the row. -/
lemma portValue_flexDataIn (r : TraceRow) (p : FlexPorts) {j : ℕ} (hj : j < 16) :
    (portValue (((FlexSimRow.command r).drive p).flexDataIn.getD j [])).getD 0 = r.byte j := by
  have hget : ((FlexSimRow.command r).drive p).flexDataIn.getD j [] = hexText (r.byteText j) := by
    simp [FlexSimRow.drive, List.getD, hj]
    rfl
  have hne : r.byteText j ≠ [] := by
    rw [← List.length_pos_iff, r.length_byteText]
    decide
  rw [hget, portValue_hexText hne (r.byteText_digits j), r.ofDigits_byteText hj]
  rfl

lemma noteWrite_drive (m : Mem ℕ) (p : FlexPorts) (r : FlexSimRow) :
    noteWrite m (r.drive p) = r.note m := by
  cases r with
  | command r =>
      have hwrite : ((FlexSimRow.command r).drive p).flexWrIn = 1 ↔ r.write = true := by
        show (if r.mode = "W".toList then 1 else 0) = 1 ↔ _
        unfold TraceRow.mode
        cases r.write <;> decide
      unfold noteWrite
      rw [FlexSimRow.addr_command]
      simp only [hwrite]
      rw [FlexSimRow.note]
      split
      · exact storeBlock_congr (fun j hj => portValue_flexDataIn r p hj) m _
      · rfl
  | finish =>
      have haddr : (FlexSimRow.finish.drive p).addr = some 0xdead := FlexSimRow.ends_finish
      have hno : ¬ ((FlexSimRow.finish.drive p).flexWrIn = 1 ∧ addrMin ≤ 0xdead ∧
          0xdead < addrMax) := by
        rintro ⟨-, hmin, -⟩
        exact absurd hmin (by decide)
      unfold noteWrite
      rw [haddr]
      exact if_neg hno

lemma FlexSimRow.note_note (m : Mem ℕ) (r : FlexSimRow) : r.note (r.note m) = r.note m := by
  cases r with
  | command r =>
      by_cases hr : r.write = true ∧ addrMin ≤ r.addr % 2 ^ 32 ∧ r.addr % 2 ^ 32 < addrMax
      · simp only [note, if_pos hr, storeBlock_storeBlock]
      · simp only [note, if_neg hr]
  | finish => rfl

/-- The last byte stored to each address on the relay ports up to a wait. -/
def SourceState.relayTrafficAt (st : SourceState) (k : ℕ) : Mem ℕ :=
  executed noteStore (fun _ => none) (fun i => (st.portsAt i).1) k

/-- The last byte written to each address of the large buffer on the flexnlp ports up to a wait. -/
def SourceState.flexTrafficAt (st : SourceState) (k : ℕ) : Mem ℕ :=
  executed noteWrite (fun _ => none) (fun i => (st.portsAt i).2) k

section Traffic

variable {p : RelayProgram} {trace : List TraceRow} {st : SourceState}
  (hshown : ∀ k, st.portsAt k = simPorts (simRead p trace k))

include hshown

/-- What has been noted is what the rows read so far say. -/
lemma relayTrafficAt_eq (k : ℕ) :
    st.relayTrafficAt k = (simRead p trace k).1.foldl RelayRow.note fun _ => none := by
  have hdelivers := delivers_simRead hshown
  have hheld : (fun i => (st.portsAt i).1) =
      fun i => (simRead p trace i).1.foldl RelayRow.drive .reset := by
    funext i
    rw [hshown]
    rfl
  rw [SourceState.relayTrafficAt, hheld]
  exact foldl_executed noteStore_reset noteStore_drive RelayRow.note_note hdelivers.first.1
    (fun k => (hdelivers.next k).1) k

lemma flexTrafficAt_eq (k : ℕ) :
    st.flexTrafficAt k = (simRead p trace k).2.foldl FlexSimRow.note fun _ => none := by
  have hdelivers := delivers_simRead hshown
  have hheld : (fun i => (st.portsAt i).2) =
      fun i => (simRead p trace i).2.foldl FlexSimRow.drive .reset := by
    funext i
    rw [hshown]
    rfl
  rw [SourceState.flexTrafficAt, hheld]
  exact foldl_executed noteWrite_reset noteWrite_drive FlexSimRow.note_note hdelivers.first.2
    (fun k => (hdelivers.next k).2) k

end Traffic

/-- Addresses that fit the port are noted as they are. -/
lemma foldl_note_simRows {p : RelayProgram} (hfit : ∀ s ∈ p.stores, s.addr < 2 ^ 32) :
    p.simRows.foldl RelayRow.note (fun _ => none) = relayMem p.rows := by
  have hstore : ∀ (m : Mem ℕ), ∀ s ∈ p.stores, (RelayRow.store s).note m =
      relayWrite m (storeRow "W".toList s.addr s.byteText) := by
    intro m s hs
    rw [relayWrite, relayCommand_storeRow _ s.byte_digits, RelayRow.note,
      Nat.mod_eq_of_lt (hfit s hs)]
  have htail : ∀ m : Mem ℕ, [maxpoolRow p.numTimesteps (p.numVectors * 16), endRow].foldl relayWrite m
      = m := by
    intro m
    simp only [List.foldl_cons, List.foldl_nil, relayWrite, relayCommand_maxpoolRow,
      relayCommand_endRow]
  rw [relayMem, RelayProgram.simRows, RelayProgram.rows, List.foldl_append, List.foldl_append,
    List.foldl_map, List.foldl_map, htail]
  exact List.foldl_ext _ _ _ hstore

lemma foldl_note_flexSimRows {trace : List TraceRow} (hfit : ∀ r ∈ trace, r.addr < 2 ^ 32) :
    (flexSimRows trace).foldl FlexSimRow.note (fun _ => none) = flexMem trace := by
  have hcommand : ∀ (m : Mem ℕ), ∀ r ∈ trace, (FlexSimRow.command r).note m =
      if r.Stores then storeBlock m r.addr 16 r.byte else m := by
    intro m r hr
    rw [FlexSimRow.note, Nat.mod_eq_of_lt (hfit r hr)]
    rfl
  rw [flexMem, flexSimRows, List.foldl_append, List.foldl_map]
  exact List.foldl_ext _ _ _ hcommand

/-! ### From the trace to the comparison -/

/-- The generator drops the row that ends the trace. -/
lemma maxpTestGen_flexSimText (T nv : ℕ) (trace : List TraceRow) :
    maxpTestGen T nv (flexSimText trace) = maxpTestGen T nv (traceText trace) := by
  have hfields : (flexSimRows trace).map FlexSimRow.fields =
      trace.map TraceRow.fields ++ [FlexSimRow.finish.fields] := by
    rw [flexSimRows, List.map_append, List.map_map]
    rfl
  have hread : readRows traceDelims (flexSimText trace) =
      some (trace.map TraceRow.fields ++ [FlexSimRow.finish.fields]) := by
    rw [← hfields]
    refine readRows_printRows (by decide) ?_
    intro row hrow
    obtain ⟨r, -, rfl⟩ := List.mem_map.mp hrow
    exact r.rowOf_fields
  have hend : ∀ st, maxpStep nv st FlexSimRow.finish.fields = some st := by
    intro st
    have hstoi : stoi 16 (hexText "0000dead".toList) = some 0xdead := by decide
    have hskip : (0xdead : ℤ) < addrMin ∨ (0xdead : ℤ) > addrMax := by decide
    unfold maxpStep FlexSimRow.fields FlexSimRow.addrDigits
    dsimp only
    rw [hstoi, Option.bind_eq_bind, Option.bind_some, if_pos hskip]
    rfl
  rw [maxpTestGen, maxpTestGen, hread, readRows_traceText]
  simp only [Option.bind_eq_bind, Option.bind_some, List.foldlM_append]
  simp [hend]

/-- The addresses of a program made of a trace fit their port. -/
lemma addr_lt_of_mem_stores {T nv : ℕ} {trace : List TraceRow} (hrange : InRange nv trace) :
    ∀ s ∈ (relayProgram T nv trace).stores, s.addr < 2 ^ 32 := by
  intro s hs
  obtain ⟨⟨r, i⟩, hq, hs⟩ := List.mem_flatMap.mp hs
  obtain ⟨j, hj, rfl⟩ := List.mem_map.mp hs
  have hi : i < (accepted trace).length := (List.mem_zipIdx' hq).1
  have haddr := hrange.offsets i hi
  have hj' := List.mem_range.mp hj
  show maxpRelayAddr nv i + j < 2 ^ 32
  omega

/-- **The traffic up to the comparison.**  A trace whose kept rows are writes is turned into a relay
file and both files are run.  When the comparison starts, the two models have been sent the same bytes
along the address map exactly when the `i`-th kept row has the data of one that addresses vector `i`. -/
theorem traffic_at_comparison {T nv : ℕ} (hnv : 1 ≤ nv) {trace : List TraceRow}
    (hrange : InRange nv trace) (hwrite : ∀ r ∈ accepted trace, r.write = true) :
    ∃ csv st, maxpTestGen T nv (flexSimText trace) = some csv ∧
      sourceInput (csv.flatMap (· ++ ['\n'])) (flexSimText trace) = some st ∧
      ∀ k, StopCondition (st.portsAt k) →
        ((∀ v j, j < 16 → st.relayTrafficAt k (16 * relayVector nv v + j) =
          st.flexTrafficAt k (addrMin + 16 * v + j)) ↔ InOrder trace) := by
  obtain ⟨st, hrun, -, -, hshown⟩ := sourceInput_eq (relayProgram T nv trace) trace
  have hrows := relayProgram_rows T nv hwrite
  refine ⟨_, st, ?_, hrun, ?_⟩
  · rw [maxpTestGen_flexSimText, maxpTestGen_eq]
    exact ⟨hrange, hrows⟩
  · intro k hstop
    have hread := (stopCondition_portsAt hshown k).mp hstop
    have hrelay := relayTrafficAt_eq hshown k
    have hflex := flexTrafficAt_eq hshown k
    have haddr : ∀ r ∈ trace, r.addr < 2 ^ 32 := by
      intro r hr
      exact (hrange.addresses r hr).trans (by decide)
    rw [hread] at hrelay hflex
    rw [hrelay, hflex, foldl_note_simRows (addr_lt_of_mem_stores hrange), hrows,
      foldl_note_flexSimRows haddr]
    exact agree_iff_inOrder hnv hwrite

/-- Ten writes, with two vectors to a group. -/
theorem traffic_at_comparison_twoVectors : ∃ csv st,
    maxpTestGen 16 2 (flexSimText numberedTrace) = some csv ∧
      sourceInput (csv.flatMap (· ++ ['\n'])) (flexSimText numberedTrace) = some st ∧
      ∀ k, StopCondition (st.portsAt k) →
        ((∀ v j, j < 16 → st.relayTrafficAt k (16 * relayVector 2 v + j) =
          st.flexTrafficAt k (addrMin + 16 * v + j)) ↔ InOrder numberedTrace) := by
  refine traffic_at_comparison (by decide) inRange_numberedTrace ?_
  intro r hr
  exact (stores_numberedTrace r (List.mem_of_mem_filter hr)).1

end ThreeLaSim
