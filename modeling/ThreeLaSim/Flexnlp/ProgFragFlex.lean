import ThreeLaSim.Flexnlp.MaxpoolSim

/-!
# `prog_frag_gen`, mode `f`: a flexnlp program as JSON

The tool turns the rows of a flexnlp command file into numbered entries and stops at the row that
ends the file.  It drops a row whose mode is neither `W` nor `R`, which the co-simulation takes for a
read, and its `stoi` fails on an address from `2 ^ 31` on, which the co-simulation drives.

* `progFragFlex` — the mode, from the text of the command file to the entries.
* **`progFragFlex_iff`** — the entries are the commands that the co-simulation drives from the file
  exactly when every row reads or writes, at an address below `2 ^ 31` that is not the one that ends
  the file.
-/

namespace ThreeLaSim

open CText

/-! ## The tool -/

/-- An entry of `command inputs`. -/
structure FlexEntry where
  instrNo : ℕ
  isRd : Str
  isWr : Str
  addr : Str
  data : Str
  deriving DecidableEq

/-- The loop over the rows; none where `stoi` throws. -/
def progFragFlexLoop (commandV : List FlexEntry) (instrCntr : ℕ) :
    List (List Str) → Option (List FlexEntry)
  | [] => some commandV
  | [_, mode, addr, data] :: rows =>
      if addr = "0xdeaddead".toList then some commandV
      else do
        let addrInt ← stoi 16 addr
        if addrInt = 0x0dead then return commandV
        else if mode = "W".toList then
          progFragFlexLoop (commandV ++ [⟨instrCntr, "0".toList, "1".toList, addr, data⟩])
            (instrCntr + 1) rows
        else if mode = "R".toList then
          progFragFlexLoop (commandV ++ [⟨instrCntr, "1".toList, "0".toList, addr, data⟩])
            (instrCntr + 1) rows
        else progFragFlexLoop commandV instrCntr rows
  | _ => none

/-- Mode `f`. -/
def progFragFlex (fin : Str) : Option (List FlexEntry) := do
  let rows ← readRows traceDelims fin
  progFragFlexLoop [] 0 rows

/-! ## Command files -/

/-- A row in front of the one that ends the file: any mode, an address and data in hexadecimal
digits. -/
structure FragRow where
  tag : Str
  mode : Str
  addrDigits : Str
  dataDigits : Str
  comma_not_mem_tag : ',' ∉ tag
  comma_not_mem_mode : ',' ∉ mode
  addr_ne_nil : addrDigits ≠ []
  addr_digits : ∀ c ∈ addrDigits, isDigit 16 c = true
  data_ne_nil : dataDigits ≠ []
  data_digits : ∀ c ∈ dataDigits, isDigit 16 c = true

namespace FragRow

variable (r : FragRow)

/-- The four fields. -/
def fields : List Str := [r.tag, r.mode, hexText r.addrDigits, hexText r.dataDigits]

/-- The address. -/
def addr : ℕ := ofDigits 16 r.addrDigits

/-- The tool knows the mode. -/
def Known : Prop := r.mode = "W".toList ∨ r.mode = "R".toList

instance : DecidablePred Known := fun _ => inferInstanceAs (Decidable (_ ∨ _))

/-- The tool makes an entry of the row and goes on. -/
def Ordinary : Prop := r.Known ∧ r.addr ≠ 0xdead ∧ r.addr < 2 ^ 31

/-- The entry of a row with a known mode. -/
def entry (instrCntr : ℕ) : FlexEntry where
  instrNo := instrCntr
  isRd := if r.mode = "W".toList then "0".toList else "1".toList
  isWr := if r.mode = "W".toList then "1".toList else "0".toList
  addr := hexText r.addrDigits
  data := hexText r.dataDigits

lemma rowOf_fields : RowOf traceDelims r.fields := by
  have haddr : ',' ∉ hexText r.addrDigits := not_mem_hexText r.addr_digits (by decide) (by decide)
  have hdata : '\n' ∉ hexText r.dataDigits := not_mem_hexText r.data_digits (by decide) (by decide)
  exact .cons r.comma_not_mem_tag (.cons r.comma_not_mem_mode (.cons haddr (.cons hdata .nil)))

lemma stoi_addr : stoi 16 (hexText r.addrDigits) =
    if r.addr < 2 ^ 31 then some (r.addr : ℤ) else none :=
  stoi_hexText r.addr_ne_nil r.addr_digits

/-- The longer marker is an address that does not fit an `int`. -/
lemma addr_of_marker (h : hexText r.addrDigits = "0xdeaddead".toList) : r.addr = 0xdeaddead := by
  have hmarker : "0xdeaddead".toList = hexText "deaddead".toList := by decide
  rw [hmarker] at h
  have hdigits : r.addrDigits = "deaddead".toList := (List.cons.inj (List.cons.inj h).2).2
  rw [addr, hdigits]
  decide

end FragRow

/-- The rows of a command file. -/
def fragFields (rows : List FragRow) : List (List Str) :=
  rows.map FragRow.fields ++ [FlexSimRow.finish.fields]

/-- The text of a command file. -/
def fragText (rows : List FragRow) : Str := (fragFields rows).flatMap (printRow traceDelims)

lemma readRows_fragText (rows : List FragRow) :
    readRows traceDelims (fragText rows) = some (fragFields rows) := by
  refine readRows_printRows (by decide) ?_
  intro row hrow
  rcases List.mem_append.mp hrow with hrow | hrow
  · obtain ⟨r, -, rfl⟩ := List.mem_map.mp hrow
    exact r.rowOf_fields
  · obtain rfl := List.mem_singleton.mp hrow
    exact FlexSimRow.finish.rowOf_fields

/-! ## The loop -/

section Loop

variable (commandV : List FlexEntry) (n : ℕ)

/-- The row that ends the file. -/
lemma progFragFlexLoop_finish :
    progFragFlexLoop commandV n [FlexSimRow.finish.fields] = some commandV := by
  have hmarker : hexText "0000dead".toList ≠ "0xdeaddead".toList := by decide
  have hstoi : stoi 16 (hexText "0000dead".toList) = some 0xdead := by decide
  unfold FlexSimRow.fields FlexSimRow.addrDigits
  rw [progFragFlexLoop]
  dsimp only
  rw [if_neg hmarker, hstoi, Option.bind_eq_bind, Option.bind_some, if_pos rfl]
  rfl

/-- One turn on a row whose address ends the loop, or makes `stoi` throw. -/
lemma progFragFlexLoop_stop {r : FragRow} (h : r.addr = 0xdead ∨ ¬ r.addr < 2 ^ 31)
    (rows : List (List Str)) {entries : List FlexEntry}
    (hrun : progFragFlexLoop commandV n (r.fields :: rows) = some entries) :
    entries = commandV := by
  rw [FragRow.fields, progFragFlexLoop, r.stoi_addr] at hrun
  by_cases hmarker : hexText r.addrDigits = "0xdeaddead".toList
  · rw [if_pos hmarker] at hrun
    exact (Option.some.inj hrun).symm
  · rw [if_neg hmarker] at hrun
    by_cases hlt : r.addr < 2 ^ 31
    · have hdead : (r.addr : ℤ) = 0x0dead := by omega
      rw [if_pos hlt, Option.bind_eq_bind, Option.bind_some, if_pos hdead] at hrun
      exact (Option.some.inj hrun).symm
    · rw [if_neg hlt] at hrun
      cases hrun

/-- One turn on a row that neither ends the loop nor throws. -/
lemma progFragFlexLoop_next {r : FragRow} (hdead : r.addr ≠ 0xdead) (hlt : r.addr < 2 ^ 31)
    (rows : List (List Str)) : progFragFlexLoop commandV n (r.fields :: rows) =
      if r.Known then progFragFlexLoop (commandV ++ [r.entry n]) (n + 1) rows
      else progFragFlexLoop commandV n rows := by
  have hmarker : hexText r.addrDigits ≠ "0xdeaddead".toList := by
    intro h
    have haddr := r.addr_of_marker h
    omega
  have hno : ¬ ((r.addr : ℤ) = 0x0dead) := by omega
  rw [FragRow.fields, progFragFlexLoop, if_neg hmarker, r.stoi_addr, if_pos hlt,
    Option.bind_eq_bind, Option.bind_some, if_neg hno]
  unfold FragRow.Known FragRow.entry
  by_cases hw : r.mode = "W".toList
  · simp only [if_pos hw, if_pos (Or.inl hw)]
  · by_cases hr : r.mode = "R".toList
    · simp only [if_neg hw, if_pos hr, if_pos (Or.inr hr)]
    · simp only [if_neg hw, if_neg hr, if_neg (not_or.mpr ⟨hw, hr⟩)]

end Loop

/-- The entries of rows, numbered from `n`. -/
def fragEntries (n : ℕ) (rows : List FragRow) : List FlexEntry :=
  (rows.zipIdx n).map fun q => q.1.entry q.2

lemma fragEntries_cons (n : ℕ) (r : FragRow) (rows : List FragRow) :
    fragEntries n (r :: rows) = r.entry n :: fragEntries (n + 1) rows := by
  simp [fragEntries, List.zipIdx_cons]

/-- With ordinary rows only, the loop makes an entry of each. -/
lemma progFragFlexLoop_of_ordinary : ∀ (rows : List FragRow) (commandV : List FlexEntry) (n : ℕ),
    (∀ r ∈ rows, r.Ordinary) →
      progFragFlexLoop commandV n (fragFields rows) = some (commandV ++ fragEntries n rows)
  | [], commandV, n, _ => by
      rw [fragFields, List.map_nil, List.nil_append, progFragFlexLoop_finish]
      simp [fragEntries]
  | r :: rows, commandV, n, h => by
      obtain ⟨⟨hknown, hdead, hlt⟩, htail⟩ := List.forall_mem_cons.mp h
      have ih := progFragFlexLoop_of_ordinary rows (commandV ++ [r.entry n]) (n + 1) htail
      rw [fragFields] at ih
      rw [fragFields, List.map_cons, List.cons_append, progFragFlexLoop_next _ _ hdead hlt,
        if_pos hknown, ih, fragEntries_cons, List.append_assoc, List.singleton_append]

/-- The loop makes one entry of a row at most. -/
lemma length_le_of_progFragFlexLoop {rows : List FragRow} {commandV entries : List FlexEntry} {n : ℕ}
    (h : progFragFlexLoop commandV n (fragFields rows) = some entries) :
    entries.length ≤ commandV.length + rows.length := by
  induction rows generalizing commandV n with
  | nil =>
      rw [fragFields, List.map_nil, List.nil_append, progFragFlexLoop_finish] at h
      obtain rfl := Option.some.inj h
      exact Nat.le_add_right _ _
  | cons r rows ih =>
      rw [fragFields, List.map_cons, List.cons_append] at h
      by_cases hgo : r.addr ≠ 0xdead ∧ r.addr < 2 ^ 31
      · rw [progFragFlexLoop_next _ _ hgo.1 hgo.2] at h
        rw [List.length_cons]
        split_ifs at h with hknown
        · have hle := ih h
          rw [List.length_append, List.length_singleton] at hle
          omega
        · have hle := ih h
          omega
      · obtain rfl := progFragFlexLoop_stop commandV n (by omega) _ h
        exact Nat.le_add_right _ _

/-- An entry for every row means that no row was dropped and none ended the loop early. -/
lemma FragRow.ordinary_of_length {rows : List FragRow} {commandV entries : List FlexEntry} {n : ℕ}
    (h : progFragFlexLoop commandV n (fragFields rows) = some entries)
    (hlen : entries.length = commandV.length + rows.length) : ∀ r ∈ rows, r.Ordinary := by
  induction rows generalizing commandV n with
  | nil => simp
  | cons r rows ih =>
      rw [fragFields, List.map_cons, List.cons_append] at h
      rw [List.length_cons] at hlen
      by_cases hgo : r.addr ≠ 0xdead ∧ r.addr < 2 ^ 31
      · rw [progFragFlexLoop_next _ _ hgo.1 hgo.2] at h
        split_ifs at h with hknown
        · have htail := ih h (by rw [hlen, List.length_append, List.length_singleton]; omega)
          exact List.forall_mem_cons.mpr ⟨⟨hknown, hgo.1, hgo.2⟩, htail⟩
        · have hle := length_le_of_progFragFlexLoop h
          omega
      · obtain rfl := progFragFlexLoop_stop commandV n (by omega) _ h
        omega

/-! ## Agreement with the co-simulation -/

/-- The entry stands for what the co-simulation drives: the same access, to the same address, with the
same sixteen bytes. -/
structure FlexEntry.Drives (e : FlexEntry) (p : FlexPorts) : Prop where
  write : e.isWr = "1".toList ↔ p.flexWrIn = 1
  read : e.isRd = "1".toList ↔ p.flexRdIn = 1
  addr : (hexValue e.addr).map (· % 2 ^ 32) = p.addr
  data : ∀ j < 16, portValue (p.flexDataIn.getD j []) = (hexValue e.data).map (· / 256 ^ j % 256)

/-- What the co-simulation drives from a row. -/
lemma FragRow.drives_entry (r : FragRow) (n : ℕ) : ∃ p,
    flexPorts r.mode (hexText r.addrDigits) (hexText r.dataDigits) = some p ∧
      (r.entry n).Drives p := by
  have hdigits : ∀ c ∈ '0' :: '0' :: r.addrDigits, isDigit 16 c = true :=
    List.forall_mem_cons.mpr ⟨by decide, List.forall_mem_cons.mpr ⟨by decide, r.addr_digits⟩⟩
  have hne : ∀ j, hexByte 16 r.dataDigits j ≠ [] := by
    intro j
    rw [← List.length_pos_iff, length_hexByte (by decide)]
    decide
  refine ⟨_, flexPorts_hexText _ _ _, ?_⟩
  constructor
  case write => simp [entry]
  case read => simp [entry]
  case addr =>
    rw [entry, FlexPorts.addr, hexValue_hexText r.addr_ne_nil r.addr_digits,
      portValue_hexText (List.cons_ne_nil _ _) hdigits, ofDigits_cons_zero, ofDigits_cons_zero]
  case data =>
    intro j hj
    rw [entry, hexValue_hexText r.data_ne_nil r.data_digits]
    simp only [List.getD_eq_getElem?_getD, List.getElem?_map, List.getElem?_range hj,
      Option.map_some, Option.getD_some]
    rw [portValue_hexText (hne j) (hexByte_digits r.data_digits j),
      ofDigits_hexByte r.data_digits hj]

/-- The entries of rows stand for what the co-simulation drives from them. -/
lemma forall₂_fragEntries (rows : List FragRow) (n : ℕ) :
    List.Forall₂ (fun r e => ∃ p, flexPorts r.mode (hexText r.addrDigits) (hexText r.dataDigits) =
      some p ∧ FlexEntry.Drives e p) rows (fragEntries n rows) := by
  induction rows generalizing n with
  | nil => exact .nil
  | cons r rows ih =>
      rw [fragEntries_cons]
      exact .cons (r.drives_entry n) (ih (n + 1))

/-- **When mode `f` keeps a program**: the entries are numbered from zero and stand, one by one, for
what the co-simulation drives from the rows, exactly when every row reads or writes below `2 ^ 31` and
none has the address that ends the file. -/
theorem progFragFlex_iff (rows : List FragRow) :
    (∃ entries, progFragFlex (fragText rows) = some entries ∧
      entries.map (·.instrNo) = List.range rows.length ∧
      List.Forall₂ (fun r e => ∃ p, flexPorts r.mode (hexText r.addrDigits) (hexText r.dataDigits) =
        some p ∧ e.Drives p) rows entries) ↔ ∀ r ∈ rows, r.Ordinary := by
  have hrun : progFragFlex (fragText rows) = progFragFlexLoop [] 0 (fragFields rows) := by
    rw [progFragFlex, readRows_fragText]
    rfl
  rw [hrun]
  constructor
  · rintro ⟨entries, hentries, -, hrows⟩
    refine FragRow.ordinary_of_length hentries ?_
    rw [List.length_nil, Nat.zero_add]
    exact hrows.length_eq.symm
  · intro hordinary
    refine ⟨_, progFragFlexLoop_of_ordinary rows [] 0 hordinary, ?_, ?_⟩
    · have hnumbers : (fragEntries 0 rows).map (·.instrNo) = (rows.zipIdx 0).map Prod.snd := by
        rw [fragEntries, List.map_map]
        rfl
      rw [List.nil_append, hnumbers, List.zipIdx_map_snd, List.range_eq_range']
    · rw [List.nil_append]
      exact forall₂_fragEntries rows 0

end ThreeLaSim
