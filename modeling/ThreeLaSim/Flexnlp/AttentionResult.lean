import ThreeLaSim.Flexnlp.FlexnlpResult

/-!
# The verdict of the attention testbench

The attention testbench reads the same result rows as the others.  It takes one digit more of the
address, and that digit tells which of the two buffers a word is compared with; the index within the
buffer is what is left of the address modulo the size of a buffer.

* `attentionCheck` — the comparison.
* **`attentionVerdict_iff`** — the testbench passes exactly when each word of the log is held by the
  buffer its address belongs to.
-/

namespace ThreeLaSim

open CText

/-! ## The comparison -/

/-- One row: the branch for the large buffer and the branch for the small one. -/
def compareAttentionRow (largeBuffer smallBuffer : ℕ → ℕ) (t : Tally) : List Str → Option Tally
  | [addrStr, dataStr] => do
      let addrStr ← substr addrStr 4 6
      let addrInt ← stoi 16 addrStr
      if addrInt < 0x600000 then
        let addrInt := addrInt % 0x100000
        let row ← (List.range 16).foldlM (compareByte largeBuffer addrInt dataStr)
          { t with error := 0 }
        return { row with error := t.error + row.error }
      else
        let addrInt := addrInt % 0x100000
        let row ← (List.range 16).foldlM (compareByte smallBuffer addrInt dataStr)
          { t with error := 0 }
        return { row with error := t.error + row.error }
  | _ => none

/-- The comparison of the attention testbench, on the text of the result file. -/
def attentionCheck (largeBuffer smallBuffer : ℕ → ℕ) (fin : Str) : Option Tally := do
  let rows ← readRows [',', '\n'] fin
  rows.foldlM (compareAttentionRow largeBuffer smallBuffer) ⟨0, 0, 0⟩

/-! ## One row -/

namespace ReadPair

variable (p : ReadPair) (largeBuffer smallBuffer : ℕ → ℕ)

/-- The buffer an address belongs to, by its last six digits. -/
def buffer : ℕ → ℕ := if p.addr % 2 ^ 24 < 0x600000 then largeBuffer else smallBuffer

/-- The last six of the eight digits. -/
lemma stoi_addr_six : substr (hexText p.addrDigits) 4 6 = some (p.addrDigits.drop 2) ∧
    stoi 16 (p.addrDigits.drop 2) = some ((p.addr % 2 ^ 24 : ℕ) : ℤ) := by
  have hlen : (p.addrDigits.drop 2).length = 6 := by rw [List.length_drop, p.addr_length]
  have hdigits : ∀ c ∈ p.addrDigits.drop 2, isDigit 16 c = true := by
    intro c hc
    exact p.addr_digits c (List.mem_of_mem_drop hc)
  have hvalue : ofDigits 16 (p.addrDigits.drop 2) = p.addr % 2 ^ 24 := by
    have h := ofDigits_drop (by decide) p.addr_digits 6
    rwa [p.addr_length] at h
  constructor
  · rw [substr, if_pos (by simp [hexText, p.addr_length])]
    exact congrArg some (List.take_of_length_le hlen.le)
  · have hne : p.addrDigits.drop 2 ≠ [] := by
      rw [← List.length_pos_iff, hlen]
      decide
    have hlt : p.addr % 2 ^ 24 < 2 ^ 31 := (Nat.mod_lt _ (by decide)).trans (by decide)
    rw [stoi_digits_nil hne hdigits, hvalue, if_pos hlt]

/-- The row is compared as the other testbenches do it, with the buffer of its address. -/
lemma compareAttentionRow_row (t : Tally) :
    compareAttentionRow largeBuffer smallBuffer t p.row =
      compareRow (p.buffer largeBuffer smallBuffer) t p.row := by
  obtain ⟨hcut, hstoi⟩ := p.stoi_addr
  obtain ⟨hcutSix, hstoiSix⟩ := p.stoi_addr_six
  have hindex : ((p.addr % 2 ^ 24 : ℕ) : ℤ) % 0x100000 = ((p.addr % 2 ^ 20 : ℕ) : ℤ) := by omega
  have hside : ((p.addr % 2 ^ 24 : ℕ) : ℤ) < 0x600000 ↔ p.addr % 2 ^ 24 < 0x600000 := by omega
  rw [row, compareAttentionRow, compareRow, hcut, hcutSix, Option.bind_eq_bind, Option.bind_some,
    Option.bind_eq_bind, Option.bind_some, hstoi, hstoiSix, Option.bind_some, Option.bind_some,
    hindex]
  by_cases hlarge : p.addr % 2 ^ 24 < 0x600000
  · rw [if_pos (hside.mpr hlarge), buffer, if_pos hlarge]
  · rw [if_neg (fun h => hlarge (hside.mp h)), buffer, if_neg hlarge]

/-- The bytes of the word that its buffer holds. -/
def bufferCount : ℕ := p.heldCount (p.buffer largeBuffer smallBuffer)

end ReadPair

/-! ## A whole file -/

section File

variable (largeBuffer smallBuffer : ℕ → ℕ)

/-- The number of bytes that are held, over all reads. -/
def bufferTotal (reads : List ReadPair) : ℕ :=
  (reads.map fun p => p.bufferCount largeBuffer smallBuffer).sum

lemma bufferTotal_cons (p : ReadPair) (reads : List ReadPair) :
    bufferTotal largeBuffer smallBuffer (p :: reads) =
      p.bufferCount largeBuffer smallBuffer + bufferTotal largeBuffer smallBuffer reads := rfl

/-- All bytes are held when every word is. -/
lemma bufferTotal_spec (reads : List ReadPair) :
    bufferTotal largeBuffer smallBuffer reads ≤ 16 * reads.length ∧
      (bufferTotal largeBuffer smallBuffer reads = 16 * reads.length ↔
        ∀ p ∈ reads, ∀ b < 16, p.Held (p.buffer largeBuffer smallBuffer) b) := by
  induction reads with
  | nil => simp [bufferTotal]
  | cons p reads ih =>
      obtain ⟨hle, hall⟩ := ih
      have hp := p.heldCount_le (p.buffer largeBuffer smallBuffer)
      rw [bufferTotal_cons, List.length_cons, List.forall_mem_cons, ← hall, ← p.heldCount_eq_iff,
        ReadPair.bufferCount]
      omega

/-- The loop over the rows of a file. -/
lemma foldlM_compareAttentionRow (reads : List ReadPair) (t : Tally) :
    (reads.map ReadPair.row).foldlM (compareAttentionRow largeBuffer smallBuffer) t =
      some ⟨t.total + 16 * reads.length, t.passed + bufferTotal largeBuffer smallBuffer reads,
        t.error + (16 * reads.length - bufferTotal largeBuffer smallBuffer reads)⟩ := by
  induction reads generalizing t with
  | nil => rfl
  | cons p reads ih =>
      have hrow := p.compareAttentionRow_row largeBuffer smallBuffer t
      rw [p.compareRow_row] at hrow
      have hle := (bufferTotal_spec largeBuffer smallBuffer reads).1
      have hp := p.heldCount_le (p.buffer largeBuffer smallBuffer)
      rw [List.map_cons, foldlM_cons_some hrow, ih, bufferTotal_cons, List.length_cons,
        ReadPair.bufferCount]
      simp only [Option.some_inj, Tally.mk.injEq]
      omega

/-- **The comparison of a result file.** -/
theorem attentionCheck_rows (reads : List ReadPair) :
    attentionCheck largeBuffer smallBuffer
        ((reads.map ReadPair.row).flatMap (printRow [',', '\n'])) =
      some ⟨16 * reads.length, bufferTotal largeBuffer smallBuffer reads,
        16 * reads.length - bufferTotal largeBuffer smallBuffer reads⟩ := by
  have hrows : readRows [',', '\n'] ((reads.map ReadPair.row).flatMap (printRow [',', '\n'])) =
      some (reads.map ReadPair.row) := by
    refine readRows_printRows (by decide) ?_
    intro row hrow
    obtain ⟨p, -, rfl⟩ := List.mem_map.mp hrow
    exact p.rowOf_row
  rw [attentionCheck, hrows, Option.bind_eq_bind, Option.bind_some, foldlM_compareAttentionRow]
  simp only [Nat.zero_add]

/-- **The attention verdict is sound and complete**: on every log, whatever stands between the reads,
sixteen checks are made for each read, each passes or fails, and the testbench passes exactly when
the buffer that the address of a read belongs to holds every byte of its word. -/
theorem attentionVerdict_iff (banner : Str) (items : List (QuietLine ⊕ ReadPair)) :
    ∃ file t, extractFlexnlpResult (banner :: logLines items) = some file ∧
      attentionCheck largeBuffer smallBuffer file = some t ∧
      t.total = 16 * (logReads items).length ∧ t.passed + t.error = t.total ∧
      (t.Passed ↔ ∀ p ∈ logReads items, ∀ b < 16,
        (if p.addr % 2 ^ 24 < 0x600000 then largeBuffer else smallBuffer) (p.addr % 2 ^ 20 + b) =
          p.value % 2 ^ 128 / 256 ^ b % 256) := by
  obtain ⟨hle, hall⟩ := bufferTotal_spec largeBuffer smallBuffer (logReads items)
  refine ⟨_, _, extractFlexnlpResult_log banner items,
    attentionCheck_rows largeBuffer smallBuffer _, rfl, ?_, ?_⟩
  · simp only
    omega
  · rw [Tally.Passed, eq_comm, hall]
    rfl

end File

end ThreeLaSim
