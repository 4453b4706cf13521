import ThreeLaSim.Core.HexWord

/-!
# The hlscnn verdict

`extract_sim_result` takes the result lines out of the log of the accelerator and writes eight
halfwords for each, with their addresses, to a JSON file; the testbench compares every halfword with
two bytes of its scratch pad.

* `extractSimResult`, `resultErrors` — the two programs.
* **`extractSimResult_log`** — the halfwords extracted, in the order of the log.
* **`simVerdict_iff`** — the testbench passes exactly when every address fits an `int` and the
  scratch pad holds every halfword.

The address of a halfword may leave `int` in the one program, but not unnoticed in the other: it
wraps around, and the testbench takes it back to the cell (`rebase`).
-/

namespace ThreeLaSim

open CText

/-! ## The programs -/

/-- An entry of `"SPAD1 result"`. -/
@[ext]
structure SimEntry where
  addr : ℤ
  data : ℤ
  deriving DecidableEq, Repr

/-- The result of `int` arithmetic, in two's complement. -/
def int32 (x : ℤ) : ℤ := x.bmod (2 ^ 32)

/-- What the ten `getline`s of a result line stop at: address, `data`, eight halfwords. -/
def resultDelims : List Char := ';' :: ':' :: List.replicate 8 '_'

/-- The entry of halfword `i`. -/
def resultEntry (addr data : Str) (i : ℕ) : Option SimEntry := do
  let addrInt ← stoi 16 addr
  let dataInt ← stoi 16 data
  return ⟨int32 (addrInt + 2 * i), dataInt⟩

/-- The entries of a result line, from its fields. -/
def resultEntries : List Str → Option (List SimEntry)
  | addr :: _ :: datas => datas.zipIdx.mapM fun x => resultEntry addr x.1 x.2
  | _ => none

/-- The marker of a result line. -/
def ilaResult : Str := "[[ILA-RESULT]]".toList

/-- One line of the log; the address begins five characters behind the start of `addr`. -/
def resultLine (temp : Str) : Option (List SimEntry) :=
  if !contains ilaResult temp then some []
  else do
    let dataLine ← substrFrom temp (posAdd (find "addr".toList temp) 5)
    let (fields, _) ← getRow resultDelims dataLine
    resultEntries fields

/-- `extract_sim_result`, on the lines of the log. -/
def extractSimResult (log : List Str) : Option (List SimEntry) := do
  let entries ← log.mapM resultLine
  return entries.flatten

/-- The halfword of the scratch pad at an entry: `(byte_1 << 8) + byte_0` in sixteen bits. -/
def padHalfword (scratchPad : ℕ → BitVec 8) (e : SimEntry) : BitVec 16 :=
  let ilaAddr := int32 (e.addr - 0x24000)
  let byte0 := scratchPad ilaAddr.toNat
  let byte1 := scratchPad (int32 (ilaAddr + 1)).toNat
  (byte1.setWidth 16 <<< 8) + byte0.setWidth 16

/-- The check of the testbench: the number of errors. -/
def resultErrors (scratchPad : ℕ → BitVec 8) (entries : List SimEntry) : ℕ :=
  entries.foldl (fun err e =>
    if ((padHalfword scratchPad e).toNat : ℤ) ≠ e.data then err + 1 else err) 0

/-- `testbench passed`: the extraction delivers a file and the check finds no error in it. -/
def SimPassed (scratchPad : ℕ → BitVec 8) (log : List Str) : Prop :=
  ∃ entries, extractSimResult log = some entries ∧ resultErrors scratchPad entries = 0

/-! ## Logs -/

/-- What stands before the address of a result line. -/
def resultHead : Str := "[[ILA-RESULT]]: SPAD1 addr: ".toList

/-- What stands between the address and the halfwords. -/
def resultMid : Str := ";\tdata: ".toList

/-- Any other line: the marker does not occur in it. -/
structure UnmarkedLine where
  text : Str
  no_marker : contains ilaResult text = false

/-- A result line: the digits of the address and of the eight halfwords. -/
structure SimResultLine where
  addrDigits : Str
  halfwords : List Str
  addr_ne_nil : addrDigits ≠ []
  addr_digits : ∀ c ∈ addrDigits, isDigit 16 c = true
  addr_ge : 0x24000 ≤ ofDigits 16 addrDigits
  length_halfwords : halfwords.length = 8
  halfword_ne_nil : ∀ d ∈ halfwords, d ≠ []
  halfword_digits : ∀ d ∈ halfwords, ∀ c ∈ d, isDigit 16 c = true
  halfword_le : ∀ d ∈ halfwords, ofDigits 16 d ≤ 0xffff

namespace SimResultLine

variable (l : SimResultLine)

/-- The address. -/
def addr : ℕ := ofDigits 16 l.addrDigits

/-- Halfword `i`. -/
def halfword (i : ℕ) : ℕ := ofDigits 16 (l.halfwords.getD i [])

/-- The line. -/
def text : Str := resultHead ++ (l.addrDigits ++ (resultMid ++ l.halfwords.flatMap (· ++ ['_'])))

/-- The halfwords with their addresses. -/
def entries : List SimEntry :=
  (List.range 8).map fun i : ℕ => ⟨int32 (l.addr + 2 * i), l.halfword i⟩

end SimResultLine

/-- The lines of a log. -/
def simLog (items : List (UnmarkedLine ⊕ SimResultLine)) : List Str :=
  items.map fun
    | .inl o => o.text
    | .inr l => l.text

/-- The result lines of a log. -/
def simResults (items : List (UnmarkedLine ⊕ SimResultLine)) : List SimResultLine :=
  items.filterMap Sum.getRight?

/-! ## Extraction -/

lemma resultLine_unmarked (o : UnmarkedLine) : resultLine o.text = some [] := by
  rw [resultLine, o.no_marker]
  rfl

namespace SimResultLine

variable (l : SimResultLine)

/-- The address is an `int`. -/
def Fits : Prop := l.addr < 2 ^ 31

instance : DecidablePred Fits := fun _ => inferInstanceAs (Decidable (_ < _))

/-- The fields of the line behind `addr:`; a blank stands before the address and before the first
halfword. -/
def fields : List Str :=
  (' ' :: l.addrDigits) :: "\tdata".toList :: l.halfwords.modifyHead (' ' :: ·)

lemma stoi_addr : stoi 16 (' ' :: l.addrDigits)
    = if l.addr < 2 ^ 31 then some (l.addr : ℤ) else none := by
  rw [stoi_blank]
  exact stoi_digits_nil l.addr_ne_nil l.addr_digits

/-- Every field of a halfword is read as its number. -/
lemma stoi_halfword {i : ℕ} {d : Str} (hd : (l.halfwords.modifyHead (' ' :: ·))[i]? = some d) :
    stoi 16 d = some (l.halfword i : ℤ) := by
  have hword : ∀ d, l.halfwords[i]? = some d → stoi 16 d = some (l.halfword i : ℤ) := by
    intro d hd
    have hmem : d ∈ l.halfwords := List.mem_of_getElem? hd
    have hvalue : l.halfword i = ofDigits 16 d := by
      rw [halfword, List.getD_eq_getElem?_getD, hd]
      rfl
    have hle := l.halfword_le d hmem
    rw [stoi_digits_nil (l.halfword_ne_nil d hmem) (l.halfword_digits d hmem), if_pos (by omega),
      hvalue]
  -- the blank stands before the first halfword only
  cases hl : l.halfwords with
  | nil => simp [hl] at hd
  | cons h hs =>
      rw [hl] at hd hword
      cases i with
      | zero =>
          obtain rfl : ' ' :: h = d := by simpa using hd
          rw [stoi_blank]
          exact hword h rfl
      | succ i => exact hword d (by simpa using hd)

/-- One entry. -/
lemma resultEntry_halfword {i : ℕ} {d : Str}
    (hd : (l.halfwords.modifyHead (' ' :: ·))[i]? = some d) :
    resultEntry (' ' :: l.addrDigits) d i
      = if l.Fits then some ⟨int32 (l.addr + 2 * i), l.halfword i⟩ else none := by
  rw [resultEntry, l.stoi_addr, l.stoi_halfword hd]
  by_cases hfits : l.Fits
  · rw [if_pos hfits, if_pos (show l.addr < 2 ^ 31 from hfits)]
    rfl
  · rw [if_neg hfits, if_neg (show ¬ l.addr < 2 ^ 31 from hfits)]
    rfl

/-- The entries of a line: none when its address is no `int`. -/
lemma resultEntries_fields :
    resultEntries l.fields = if l.Fits then some l.entries else none := by
  set datas := l.halfwords.modifyHead (' ' :: ·) with hdatas
  have hlen : datas.length = 8 := by rw [hdatas, List.length_modifyHead, l.length_halfwords]
  rw [fields, resultEntries]
  split_ifs with hfits
  · have hentry : ∀ x ∈ datas.zipIdx, resultEntry (' ' :: l.addrDigits) x.1 x.2
        = some ⟨int32 (l.addr + 2 * x.2), l.halfword x.2⟩ := by
      rintro ⟨data, i⟩ hx
      rw [l.resultEntry_halfword (List.mem_zipIdx_iff_getElem?.mp hx), if_pos hfits]
    have hindex : datas.zipIdx.map Prod.snd = List.range 8 := by
      rw [List.zipIdx_map_snd, hlen, List.range_eq_range']
    rw [mapM_eq_some_map hentry, entries, ← hindex, List.map_map]
    rfl
  · obtain ⟨data, hget⟩ : ∃ data, datas[0]? = some data := ⟨_, List.getElem?_eq_getElem (by omega)⟩
    have hmem : (data, 0) ∈ datas.zipIdx := List.mem_zipIdx_iff_getElem?.mpr hget
    refine mapM_eq_none hmem ?_
    rw [l.resultEntry_halfword hget, if_neg hfits]

lemma printRow_fields : printRow resultDelims l.fields
    = ' ' :: (l.addrDigits ++ (resultMid ++ l.halfwords.flatMap (· ++ ['_']))) := by
  have hmid : resultMid = ';' :: ("\tdata".toList ++ [':', ' ']) := by decide
  cases hl : l.halfwords with
  | nil =>
      have hlen := l.length_halfwords
      simp [hl] at hlen
  | cons h hs =>
      have hlen : (h :: hs).length = 8 := hl ▸ l.length_halfwords
      have hrow : printRow (List.replicate 8 '_') ((' ' :: h) :: hs)
          = ' ' :: (h :: hs).flatMap (· ++ ['_']) := by
        rw [← hlen, show (h :: hs).length = ((' ' :: h) :: hs).length from rfl, printRow_replicate]
        rfl
      rw [fields, resultDelims, hl, List.modifyHead_cons, printRow, printRow, hrow, hmid]
      simp

lemma rowOf_fields : RowOf resultDelims l.fields := by
  have hdigit : ∀ {s : Str} {c : Char}, (∀ d ∈ s, isDigit 16 d = true) → isDigit 16 c = false →
      c ≠ ' ' → c ∉ ' ' :: s := by
    intro s c hs hc hblank
    rw [List.mem_cons, not_or]
    exact ⟨hblank, not_mem_digits hs hc⟩
  refine .cons (hdigit l.addr_digits (by decide) (by decide)) (.cons (by decide) ?_)
  have hlen : (l.halfwords.modifyHead (' ' :: ·)).length = 8 := by
    rw [List.length_modifyHead, l.length_halfwords]
  rw [← hlen]
  refine rowOf_replicate ?_
  intro f hf
  cases hl : l.halfwords with
  | nil => simp [hl] at hf
  | cons h hs =>
      have hdigits := l.halfword_digits
      rw [hl] at hf hdigits
      rcases List.mem_cons.mp hf with rfl | hf
      · exact hdigit (hdigits h List.mem_cons_self) (by decide) (by decide)
      · exact not_mem_digits (hdigits f (List.mem_cons_of_mem h hf)) (by decide)

/-- **One result line.** -/
lemma resultLine_text : resultLine l.text = if l.Fits then some l.entries else none := by
  have hmark : contains ilaResult l.text = true := contains_append_left (by decide) _
  have hhead : resultHead = "[[ILA-RESULT]]: SPAD1 ".toList ++ "addr: ".toList := by decide
  have hfind : find "addr".toList l.text = some 22 := by
    rw [text, hhead, List.append_assoc]
    exact find_append ((by decide : "addr".toList <+: "addr: ".toList).trans
      (List.prefix_append _ _)) _ (by decide)
  have hcut : substrFrom l.text 27 = some (printRow resultDelims l.fields) := by
    have hsplit : resultHead = "[[ILA-RESULT]]: SPAD1 addr:".toList ++ [' '] := by decide
    rw [text, l.printRow_fields, hsplit, List.append_assoc, List.singleton_append]
    exact substrFrom_append (by decide)
  have hget := getRow_printRow l.rowOf_fields []
  rw [List.append_nil] at hget
  rw [resultLine, hmark, hfind]
  simp only [posAdd, Bool.not_true, Bool.false_eq_true, if_false, hcut, Option.bind_eq_bind,
    Option.bind_some, hget, l.resultEntries_fields]

end SimResultLine

/-- Lines are extracted one by one. -/
lemma extractSimResult_cons (line : Str) (log : List Str) : extractSimResult (line :: log) = do
    let entries ← resultLine line
    let rest ← extractSimResult log
    return entries ++ rest := by
  rw [extractSimResult, extractSimResult, List.mapM_cons]
  cases resultLine line with
  | none => rfl
  | some entries =>
      cases log.mapM resultLine with
      | none => rfl
      | some rest => rfl

/-- **The halfwords of a log**, each once and in the order of the log; there are none at all when an
address is no `int`. -/
theorem extractSimResult_log (items : List (UnmarkedLine ⊕ SimResultLine)) :
    extractSimResult (simLog items) = if ∀ l ∈ simResults items, l.Fits
      then some ((simResults items).flatMap SimResultLine.entries) else none := by
  induction items with
  | nil => rfl
  | cons item items ih =>
      cases item with
      | inl o =>
          have hlog : simLog (.inl o :: items) = o.text :: simLog items := rfl
          have hresults : simResults (.inl o :: items) = simResults items := rfl
          rw [hlog, hresults, extractSimResult_cons, resultLine_unmarked, ih]
          simp
      | inr l =>
          have hlog : simLog (.inr l :: items) = l.text :: simLog items := rfl
          have hresults : simResults (.inr l :: items) = l :: simResults items := rfl
          rw [hlog, hresults, extractSimResult_cons, l.resultLine_text, ih]
          by_cases hl : l.Fits
          · by_cases hrest : ∀ l ∈ simResults items, l.Fits
            · rw [if_pos hl, if_pos hrest, if_pos (List.forall_mem_cons.mpr ⟨hl, hrest⟩),
                List.flatMap_cons]
              rfl
            · rw [if_pos hl, if_neg hrest, if_neg fun h => hrest (List.forall_mem_cons.mp h).2]
              rfl
          · rw [if_neg hl, if_neg fun h => hl (List.forall_mem_cons.mp h).1]
            rfl

/-! ## Comparison -/

/-- The two bytes of a halfword, put together. -/
lemma toNat_padHalfword (scratchPad : ℕ → BitVec 8) (e : SimEntry) :
    (padHalfword scratchPad e).toNat = (scratchPad (int32 (e.addr - 0x24000)).toNat).toNat
      + 256 * (scratchPad (int32 (int32 (e.addr - 0x24000) + 1)).toNat).toNat := by
  have h₀ := (scratchPad (int32 (e.addr - 0x24000)).toNat).isLt
  have h₁ := (scratchPad (int32 (int32 (e.addr - 0x24000) + 1)).toNat).isLt
  simp only [padHalfword, BitVec.toNat_add, BitVec.toNat_shiftLeft, BitVec.toNat_setWidth,
    Nat.shiftLeft_eq]
  omega

/-- The errors are counted. -/
lemma resultErrors_eq (scratchPad : ℕ → BitVec 8) (entries : List SimEntry) :
    resultErrors scratchPad entries
      = entries.countP fun e => ((padHalfword scratchPad e).toNat : ℤ) ≠ e.data := by
  have hloop : ∀ (entries : List SimEntry) (err : ℕ), entries.foldl (fun err e =>
      if ((padHalfword scratchPad e).toNat : ℤ) ≠ e.data then err + 1 else err) err
        = err + entries.countP fun e => ((padHalfword scratchPad e).toNat : ℤ) ≠ e.data := by
    intro entries
    induction entries with
    | nil => simp
    | cons e entries ih =>
        intro err
        rw [List.foldl_cons, ih, List.countP_cons]
        by_cases he : ((padHalfword scratchPad e).toNat : ℤ) = e.data
        · simp [he]
        · simp [he]
          omega
  rw [resultErrors, hloop, Nat.zero_add]

namespace SimResultLine

variable (l : SimResultLine)

/-- The scratch pad holds halfword `i` of the line. -/
def Held (scratchPad : ℕ → BitVec 8) (i : ℕ) : Prop :=
  (scratchPad (l.addr - 0x24000 + 2 * i)).toNat
    + 256 * (scratchPad (l.addr - 0x24000 + 2 * i + 1)).toNat = l.halfword i

instance (scratchPad : ℕ → BitVec 8) : DecidablePred (l.Held scratchPad) :=
  fun _ => inferInstanceAs (Decidable (_ = _))

/-- The testbench takes the address of a halfword back to its cell, even where it has wrapped
around. -/
lemma rebase (hfits : l.Fits) {i : ℕ} (hi : i < 8) :
    int32 (int32 (l.addr + 2 * i) - 0x24000) = (l.addr - 0x24000 + 2 * i : ℕ) ∧
      int32 ((l.addr - 0x24000 + 2 * i : ℕ) + 1) = (l.addr - 0x24000 + 2 * i + 1 : ℕ) := by
  have hge : 0x24000 ≤ l.addr := l.addr_ge
  rw [Fits] at hfits
  have hcell : ((l.addr : ℤ) + 2 * i - 0x24000) = (l.addr - 0x24000 + 2 * i : ℕ) := by omega
  constructor
  · rw [int32, int32, Int.bmod_sub_bmod, hcell]
    exact Int.bmod_eq_of_le (by omega) (by omega)
  · exact Int.bmod_eq_of_le (by omega) (by omega)

/-- An entry is compared with its own two bytes. -/
lemma padHalfword_entry (scratchPad : ℕ → BitVec 8) (hfits : l.Fits) {i : ℕ} (hi : i < 8) :
    ((padHalfword scratchPad ⟨int32 (l.addr + 2 * i), l.halfword i⟩).toNat : ℤ) = l.halfword i
      ↔ l.Held scratchPad i := by
  obtain ⟨h₀, h₁⟩ := l.rebase hfits hi
  rw [Int.natCast_inj, toNat_padHalfword, h₀, h₁, Int.toNat_natCast, Int.toNat_natCast, Held]

/-- The errors of one line. -/
lemma resultErrors_entries (scratchPad : ℕ → BitVec 8) (hfits : l.Fits) :
    resultErrors scratchPad l.entries = (List.range 8).countP fun i => ¬ l.Held scratchPad i := by
  rw [resultErrors_eq, entries, List.countP_map]
  refine List.countP_congr ?_
  intro i hi
  simp [← l.padHalfword_entry scratchPad hfits (List.mem_range.mp hi)]

end SimResultLine

/-- The errors of a log add up line by line. -/
lemma resultErrors_results (scratchPad : ℕ → BitVec 8) {results : List SimResultLine}
    (hfits : ∀ l ∈ results, l.Fits) :
    resultErrors scratchPad (results.flatMap SimResultLine.entries)
      = (results.map fun l => (List.range 8).countP fun i => ¬ l.Held scratchPad i).sum := by
  induction results with
  | nil => rfl
  | cons l results ih =>
      obtain ⟨hl, hrest⟩ := List.forall_mem_cons.mp hfits
      rw [List.map_cons, List.sum_cons, ← ih hrest, ← l.resultErrors_entries scratchPad hl,
        List.flatMap_cons, resultErrors_eq, resultErrors_eq, resultErrors_eq, List.countP_append]

/-- There are no errors when every halfword is held. -/
lemma resultErrors_eq_zero_iff (scratchPad : ℕ → BitVec 8) {results : List SimResultLine}
    (hfits : ∀ l ∈ results, l.Fits) :
    resultErrors scratchPad (results.flatMap SimResultLine.entries) = 0
      ↔ ∀ l ∈ results, ∀ i < 8, l.Held scratchPad i := by
  rw [resultErrors_results scratchPad hfits, List.sum_eq_zero_iff_forall_eq_nat, List.forall_mem_map]
  simp [List.countP_eq_zero]

/-- **The hlscnn verdict**: the entries extracted are the eight halfwords of each result line, in
the order of the log, and every one that the scratch pad does not hold is an error; an address that
is no `int` leaves no file.  So the testbench passes exactly when the addresses fit and the scratch
pad holds every halfword. -/
theorem simVerdict_iff (scratchPad : ℕ → BitVec 8) (items : List (UnmarkedLine ⊕ SimResultLine)) :
    extractSimResult (simLog items) = (if ∀ l ∈ simResults items, l.Fits
      then some ((simResults items).flatMap SimResultLine.entries) else none) ∧
    ((∀ l ∈ simResults items, l.Fits) →
      resultErrors scratchPad ((simResults items).flatMap SimResultLine.entries)
        = ((simResults items).map fun l =>
            (List.range 8).countP fun i => ¬ l.Held scratchPad i).sum) ∧
    (SimPassed scratchPad (simLog items) ↔ ∀ l ∈ simResults items, l.addr < 2 ^ 31 ∧
      ∀ i < 8, (scratchPad (l.addr - 0x24000 + 2 * i)).toNat
        + 256 * (scratchPad (l.addr - 0x24000 + 2 * i + 1)).toNat = l.halfword i) := by
  refine ⟨extractSimResult_log items, fun hfits => resultErrors_results scratchPad hfits, ?_⟩
  rw [SimPassed, extractSimResult_log]
  constructor
  · rintro ⟨entries, hextract, herrors⟩ l hl
    split_ifs at hextract with hfits
    obtain rfl := Option.some_inj.mp hextract
    exact ⟨hfits l hl, (resultErrors_eq_zero_iff scratchPad hfits).mp herrors l hl⟩
  · intro h
    have hfits : ∀ l ∈ simResults items, l.Fits := fun l hl => (h l hl).1
    rw [if_pos hfits]
    exact ⟨_, rfl, (resultErrors_eq_zero_iff scratchPad hfits).mpr fun l hl => (h l hl).2⟩

/-- A result line with an address just outside `int`. -/
def farResult : SimResultLine where
  addrDigits := "80000000".toList
  halfwords := List.replicate 8 ['0']
  addr_ne_nil := by simp
  addr_digits := List.all_eq_true.mp (by decide)
  addr_ge := by decide
  length_halfwords := rfl
  halfword_ne_nil := by simp
  halfword_digits := by simp [isDigit, digitVal]
  halfword_le := by simp [ofDigits, digitVal]

/-- The scratch pad holds the halfwords of this line, but `stoi` throws on its address. -/
theorem not_simVerdict : ¬ ∀ (scratchPad : ℕ → BitVec 8)
    (items : List (UnmarkedLine ⊕ SimResultLine)), SimPassed scratchPad (simLog items) ↔
      ∀ l ∈ simResults items, ∀ i < 8, (scratchPad (l.addr - 0x24000 + 2 * i)).toNat
        + 256 * (scratchPad (l.addr - 0x24000 + 2 * i + 1)).toNat = l.halfword i := by
  intro h
  have hfar : ¬ ∀ l ∈ simResults [.inr farResult], l.Fits := by decide
  have hheld : ∀ l ∈ simResults [.inr farResult], ∀ i < 8, (0#8).toNat + 256 * (0#8).toNat
      = l.halfword i := by decide
  obtain ⟨entries, hextract, -⟩ := (h (fun _ => 0#8) [.inr farResult]).mpr hheld
  rw [extractSimResult_log, if_neg hfar] at hextract
  simp at hextract

end ThreeLaSim
