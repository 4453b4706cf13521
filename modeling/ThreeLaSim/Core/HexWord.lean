import ThreeLaSim.Core.Text

/-!
# Words written as hexadecimal digits

A word of `n` bytes is cut out of a string of hexadecimal digits of any length: the last `2 * n`
digits, filled up with zeros.  Its bytes are pairs of digits, counted from the right.

* **`ofDigits_hexByte`** — pair `j` denotes byte `j` of the number modulo `256 ^ n`.
* `stoi_digits` — what `stoi` returns on digits without `0x`.
-/

namespace CText

/-- The last `2 * n` digits, filled up with zeros. -/
def hexWord (n : ℕ) (ds : Str) : Str := (ds.drop (ds.length - 2 * n)).leftpad (2 * n) '0'

/-- The two digits of byte `j`, counted from the right. -/
def hexByte (n : ℕ) (ds : Str) (j : ℕ) : Str := ((hexWord n ds).drop (2 * n - 2 - 2 * j)).take 2

/-- Digits that do not fill the word are filled up with zeros. -/
lemma hexWord_of_length_le {n : ℕ} {ds : Str} (h : ds.length ≤ 2 * n) :
    hexWord n ds = List.replicate (2 * n - ds.length) '0' ++ ds := by
  rw [hexWord, Nat.sub_eq_zero_of_le h, List.drop_zero, List.leftpad]

/-- Digits that fill the word are its digits. -/
lemma hexWord_of_length {n : ℕ} {ds : Str} (h : ds.length = 2 * n) : hexWord n ds = ds := by
  simp [hexWord, h]

lemma length_hexWord (n : ℕ) (ds : Str) : (hexWord n ds).length = 2 * n := by
  rw [hexWord, List.length_leftpad, List.length_drop]
  omega

lemma length_hexByte {n : ℕ} (hn : 0 < n) (ds : Str) (j : ℕ) : (hexByte n ds j).length = 2 := by
  rw [hexByte, List.length_take, List.length_drop, length_hexWord]
  omega

/-- A byte is a slice of the word. -/
lemma substr_hexWord (n : ℕ) (ds : Str) (j : ℕ) :
    substr (hexWord n ds) (2 * n - 2 - 2 * j) 2 = some (hexByte n ds j) := by
  rw [substr, if_pos, hexByte]
  rw [length_hexWord]
  omega

/-- The last character stands in byte 0. -/
lemma mem_hexByte_zero {n : ℕ} (hn : 0 < n) (s : Str) (c : Char) : c ∈ hexByte n (s ++ [c]) 0 := by
  have hword : ∃ pre, hexWord n (s ++ [c]) = pre ++ [c] := by
    have hcut : (s ++ [c]).length - 2 * n ≤ s.length := by
      rw [List.length_append, List.length_singleton]
      omega
    rw [hexWord, List.drop_append_of_le_length hcut, List.leftpad, ← List.append_assoc]
    exact ⟨_, rfl⟩
  obtain ⟨pre, hpre⟩ := hword
  have hlen : pre.length + 1 = 2 * n := by
    rw [← length_hexWord n (s ++ [c]), hpre, List.length_append, List.length_singleton]
  have hbyte : hexByte n (s ++ [c]) 0 = pre.drop (2 * n - 2) ++ [c] := by
    rw [hexByte, hpre, Nat.mul_zero, Nat.sub_zero, List.drop_append_of_le_length (by omega)]
    refine List.take_of_length_le ?_
    rw [List.length_append, List.length_drop, List.length_singleton]
    omega
  rw [hbyte]
  exact List.mem_append_right _ (List.mem_singleton_self c)

/-- The bytes of a word are those of the number it was cut from. -/
lemma byte_mod {n j : ℕ} (hj : j < n) (v : ℕ) : v % 256 ^ n / 256 ^ j % 256 = v / 256 ^ j % 256 := by
  obtain ⟨d, rfl⟩ := Nat.exists_eq_add_of_lt hj
  have hpow : (256 : ℕ) ^ (j + d + 1) = 256 ^ j * 256 ^ (d + 1) := by ring
  rw [hpow, Nat.mod_mul_right_div_self, Nat.mod_mod_of_dvd _ (dvd_pow_self 256 d.succ_ne_zero)]

section Digits

variable {n : ℕ} {ds : Str} (h : ∀ c ∈ ds, isDigit 16 c = true)
include h

lemma hexWord_digits : ∀ c ∈ hexWord n ds, isDigit 16 c = true := by
  intro c hc
  rw [hexWord, List.leftpad, List.mem_append] at hc
  rcases hc with hc | hc
  · rw [List.eq_of_mem_replicate hc]
    decide
  · exact h c (List.mem_of_mem_drop hc)

lemma hexByte_digits (j : ℕ) : ∀ c ∈ hexByte n ds j, isDigit 16 c = true := by
  intro c hc
  exact hexWord_digits h c (List.mem_of_mem_drop (List.mem_of_mem_take hc))

/-- The word denotes the number modulo `256 ^ n`. -/
lemma ofDigits_hexWord : ofDigits 16 (hexWord n ds) = ofDigits 16 ds % 256 ^ n := by
  have hbase : (16 : ℕ) ^ (2 * n) = 256 ^ n := Nat.pow_mul 16 2 n
  rw [hexWord, ofDigits_leftpad, ofDigits_drop (by decide) h, hbase]

/-- **Pair `j` of the digits denotes byte `j` of the number.** -/
theorem ofDigits_hexByte {j : ℕ} (hj : j < n) :
    ofDigits 16 (hexByte n ds j) = ofDigits 16 ds / 256 ^ j % 256 := by
  have hlen := length_hexWord n ds
  set tail := ((hexWord n ds).drop (2 * n - 2 - 2 * j)).drop 2 with htail
  have hsplit : hexWord n ds
      = (hexWord n ds).take (2 * n - 2 - 2 * j) ++ (hexByte n ds j ++ tail) := by
    rw [hexByte, htail, List.take_append_drop, List.take_append_drop]
  have htailLen : tail.length = 2 * j := by
    rw [htail, List.length_drop, List.length_drop]
    omega
  have hmid := ofDigits_middle (by decide) ((hexWord n ds).take (2 * n - 2 - 2 * j))
    (b := hexByte n ds j) (c := tail) (hexByte_digits h j) fun c hc =>
      hexWord_digits h c (List.mem_of_mem_drop (List.mem_of_mem_drop hc))
  rw [← hsplit, htailLen, length_hexByte (by omega) ds j, ofDigits_hexWord h, Nat.pow_mul] at hmid
  rw [← byte_mod hj]
  exact hmid.symm

/-- Two digits denote a byte. -/
lemma ofDigits_hexByte_lt (hn : 0 < n) (j : ℕ) : ofDigits 16 (hexByte n ds j) < 256 := by
  have hlt := ofDigits_lt (hexByte_digits h j (n := n))
  rwa [length_hexByte hn] at hlt

end Digits

/-- Without an `x` in second place nothing is stripped. -/
lemma strip0x_eq {s : Str} (h : ∀ c ∈ s.tail.head?, c ≠ 'x' ∧ c ≠ 'X') : strip0x s = s := by
  unfold strip0x
  split
  · next x c r =>
    have hx := h x rfl
    rw [if_neg (by simp [hx.1, hx.2])]
  · rfl

/-- What `stoi` returns on hexadecimal digits without `0x`, followed by something that is neither a
digit nor an `x`. -/
theorem stoi_digits {ds rest : Str} (hne : ds ≠ []) (hds : ∀ c ∈ ds, isDigit 16 c = true)
    (hrest : ∀ c ∈ rest.head?, isDigit 16 c = false ∧ c ≠ 'x' ∧ c ≠ 'X') :
    stoi 16 (ds ++ rest)
      = if ofDigits 16 ds < 2 ^ 31 then some (ofDigits 16 ds : ℤ) else none := by
  have hend : ∀ c ∈ rest.head?, isDigit 16 c = false := by
    intro c hc
    exact (hrest c hc).1
  rw [← stoiDigits_append hne hds hend]
  obtain ⟨c, r, rfl⟩ := List.exists_cons_of_ne_nil hne
  have hc := not_space_of_isDigit (hds c List.mem_cons_self)
  have hstrip : strip0x (c :: (r ++ rest)) = c :: (r ++ rest) := by
    refine strip0x_eq ?_
    intro d hd
    cases r with
    | nil => exact (hrest d hd).2
    | cons e r =>
        -- no digit is an `x`
        obtain rfl : e = d := Option.some_inj.mp hd
        have he := hds e (by simp)
        refine ⟨?_, ?_⟩ <;> (rintro rfl; exact absurd he (by decide))
  rw [List.cons_append, stoi, List.dropWhile_cons_of_neg (by simp [hc.1])]
  split
  · next heq => exact absurd (List.cons.inj heq).1 hc.2.1
  · next heq => exact absurd (List.cons.inj heq).1 hc.2.2
  · rw [if_pos rfl, hstrip]

lemma stoi_digits_nil {ds : Str} (hne : ds ≠ []) (hds : ∀ c ∈ ds, isDigit 16 c = true) :
    stoi 16 ds = if ofDigits 16 ds < 2 ^ 31 then some (ofDigits 16 ds : ℤ) else none := by
  have hstoi := @stoi_digits ds [] hne hds (by simp)
  rwa [List.append_nil] at hstoi

/-- What `stoi` returns on the digits of a byte. -/
theorem stoi_hexByte {n : ℕ} (hn : 0 < n) {ds : Str} (h : ∀ c ∈ ds, isDigit 16 c = true) (j : ℕ) :
    stoi 16 (hexByte n ds j) = some (ofDigits 16 (hexByte n ds j) : ℤ) := by
  have hne : hexByte n ds j ≠ [] := by
    rw [← List.length_pos_iff, length_hexByte hn]
    decide
  have hlt := ofDigits_hexByte_lt h hn j
  rw [stoi_digits_nil hne (hexByte_digits h j), if_pos (by omega)]

end CText
