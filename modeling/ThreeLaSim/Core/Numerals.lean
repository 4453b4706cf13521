import Mathlib.Data.Nat.Digits.Defs
import Mathlib.Data.List.Induction
import Mathlib.Tactic.Ring

/-!
# Reading and printing numbers

Texts are lists of characters.  `Nat.toDigits 10` and `Nat.toDigits 16` are what `%d` and `%x`
print for a nonnegative number; `hexPad w` is `%0wx`.  The readers follow `strtol`: `stoi` skips
blanks and a sign, accepts an optional `0x` in base 16, stops at the first character that is not
a digit and fails when there is none or when the value does not fit an `int`.

* `ofDigits_toDigits` — printing and reading back, in any base up to sixteen.
* `stoi_hexText`, `stoi_toDigits` — what `stoi` returns on the two forms that are printed.
-/

namespace CText

/-- A text as the sequence of its characters. -/
abbrev Str := List Char

/-! ## Digits -/

/-- The value of a digit character, in either case. -/
def digitVal (c : Char) : Option ℕ :=
  if '0' ≤ c ∧ c ≤ '9' then some (c.toNat - 48)
  else if 'a' ≤ c ∧ c ≤ 'f' then some (c.toNat - 87)
  else if 'A' ≤ c ∧ c ≤ 'F' then some (c.toNat - 55)
  else none

/-- `c` is a digit of the base. -/
def isDigit (base : ℕ) (c : Char) : Bool := (digitVal c).any (· < base)

/-- The number a string of digits denotes, most significant digit first. -/
def ofDigits (base : ℕ) (s : Str) : ℕ := s.foldl (fun acc c => acc * base + (digitVal c).getD 0) 0

@[simp] lemma ofDigits_nil (base : ℕ) : ofDigits base [] = 0 := rfl

lemma ofDigits_concat (base : ℕ) (s : Str) (c : Char) :
    ofDigits base (s ++ [c]) = ofDigits base s * base + (digitVal c).getD 0 := by
  simp [ofDigits, List.foldl_append]

/-- Reading a concatenation: the left part is shifted by the length of the right part. -/
lemma ofDigits_append (base : ℕ) (s t : Str) :
    ofDigits base (s ++ t) = ofDigits base s * base ^ t.length + ofDigits base t := by
  induction t using List.reverseRecOn with
  | nil => simp
  | append_singleton t c ih =>
      rw [← List.append_assoc, ofDigits_concat, ofDigits_concat, ih, List.length_append,
        List.length_singleton, Nat.pow_succ, Nat.add_mul, Nat.mul_assoc, Nat.add_assoc]

lemma ofDigits_zeros (base n : ℕ) : ofDigits base (List.replicate n '0') = 0 := by
  induction n with
  | zero => rfl
  | succ n ih => rw [List.replicate_succ', ofDigits_concat, ih]; simp [digitVal]

/-- Leading zeros do not count. -/
@[simp] lemma ofDigits_leftpad (base n : ℕ) (s : Str) :
    ofDigits base (s.leftpad n '0') = ofDigits base s := by
  rw [List.leftpad, ofDigits_append, ofDigits_zeros]
  simp

lemma ofDigits_cons_zero (base : ℕ) (s : Str) : ofDigits base ('0' :: s) = ofDigits base s := by
  simp [ofDigits, digitVal]

/-- The sixteen digit characters carry their values. -/
lemma digitVal_digitChar : ∀ d < 16, digitVal d.digitChar = some d := by decide

/-- A string of digits of the base denotes less than a power of the base. -/
lemma ofDigits_lt {base : ℕ} {s : Str} (h : ∀ c ∈ s, isDigit base c = true) :
    ofDigits base s < base ^ s.length := by
  induction s using List.reverseRecOn with
  | nil => simp
  | append_singleton s c ih =>
      have hs := ih fun d hd => h d (List.mem_append_left _ hd)
      have hc : isDigit base c = true := h c (by simp)
      obtain ⟨v, hv, hlt⟩ : ∃ v, digitVal c = some v ∧ v < base := by
        cases hd : digitVal c with
        | none => simp [isDigit, hd] at hc
        | some v => exact ⟨v, rfl, by simpa [isDigit, hd] using hc⟩
      rw [ofDigits_concat, hv, List.length_append, List.length_singleton, Nat.pow_succ]
      calc ofDigits base s * base + v < ofDigits base s * base + base := by simpa using hlt
        _ = (ofDigits base s + 1) * base := by ring
        _ ≤ base ^ s.length * base := Nat.mul_le_mul_right base hs

/-- A slice of a number, in place-value terms. -/
lemma ofDigits_middle {base : ℕ} (hbase : 0 < base) (a : Str) {b c : Str}
    (hb : ∀ d ∈ b, isDigit base d = true) (hc : ∀ d ∈ c, isDigit base d = true) :
    ofDigits base (a ++ (b ++ c)) / base ^ c.length % base ^ b.length = ofDigits base b := by
  have hpos : 0 < base ^ c.length := Nat.pow_pos hbase
  have hvalue : ofDigits base (a ++ (b ++ c)) = base ^ c.length *
      (base ^ b.length * ofDigits base a + ofDigits base b) + ofDigits base c := by
    rw [ofDigits_append, ofDigits_append, List.length_append, Nat.pow_add]
    ring
  rw [hvalue, Nat.mul_add_div hpos, Nat.div_eq_of_lt (ofDigits_lt hc), Nat.add_zero,
    Nat.mul_add_mod, Nat.mod_eq_of_lt (ofDigits_lt hb)]

/-- The last digits of a number, in place-value terms. -/
lemma ofDigits_drop {base : ℕ} (hbase : 0 < base) {s : Str}
    (h : ∀ c ∈ s, isDigit base c = true) (n : ℕ) :
    ofDigits base (s.drop (s.length - n)) = ofDigits base s % base ^ n := by
  by_cases hn : n ≤ s.length
  · have hlen : (s.drop (s.length - n)).length = n := by rw [List.length_drop]; omega
    have hmid := ofDigits_middle hbase (s.take (s.length - n)) (b := s.drop (s.length - n))
      (c := []) (fun c hc => h c (List.mem_of_mem_drop hc)) (by simp)
    rw [List.append_nil, List.take_append_drop, List.length_nil, Nat.pow_zero, Nat.div_one,
      hlen] at hmid
    exact hmid.symm
  · have hlt : ofDigits base s < base ^ n :=
      (ofDigits_lt h).trans_le (Nat.pow_le_pow_right hbase (by omega))
    rw [Nat.sub_eq_zero_of_le (by omega), List.drop_zero, Nat.mod_eq_of_lt hlt]

/-- **Printing and reading back.** -/
theorem ofDigits_toDigits {base : ℕ} (h₁ : 1 < base) (h₂ : base ≤ 16) (n : ℕ) :
    ofDigits base (Nat.toDigits base n) = n := by
  induction n using Nat.strong_induction_on with
  | _ n ih =>
      by_cases hn : n < base
      · rw [Nat.toDigits_of_lt_base hn]
        simp [ofDigits, digitVal_digitChar n (by omega)]
      · have hlt : n / base < n := Nat.div_lt_self (by omega) h₁
        have hmod : n % base < 16 := (Nat.mod_lt n (by omega)).trans_le h₂
        rw [Nat.toDigits_of_base_le h₁ (by omega), ofDigits_concat, ih _ hlt,
          digitVal_digitChar _ hmod]
        exact Nat.div_add_mod' n base

lemma toDigits_injective {base : ℕ} (h₁ : 1 < base) (h₂ : base ≤ 16) :
    Function.Injective (Nat.toDigits base) := by
  intro m n h
  rw [← ofDigits_toDigits h₁ h₂ m, h, ofDigits_toDigits h₁ h₂]

/-- Every printed character is a digit of the base. -/
lemma isDigit_of_mem_toDigits {base : ℕ} (h₁ : 1 < base) (h₂ : base ≤ 16) (n : ℕ) :
    ∀ c ∈ Nat.toDigits base n, isDigit base c = true := by
  induction n using Nat.strong_induction_on with
  | _ n ih =>
      intro c hc
      have hdigit : ∀ d < base, isDigit base d.digitChar = true := by
        intro d hd
        simp [isDigit, digitVal_digitChar d (by omega), hd]
      by_cases hn : n < base
      · rw [Nat.toDigits_of_lt_base hn, List.mem_singleton] at hc
        exact hc ▸ hdigit n hn
      · rw [Nat.toDigits_of_base_le h₁ (by omega), List.mem_append, List.mem_singleton] at hc
        rcases hc with hc | hc
        · exact ih _ (Nat.div_lt_self (by omega) h₁) c hc
        · exact hc ▸ hdigit _ (Nat.mod_lt n (by omega))

/-- `%0wx`. -/
def hexPad (w n : ℕ) : Str := (Nat.toDigits 16 n).leftpad w '0'

lemma ofDigits_hexPad (w n : ℕ) : ofDigits 16 (hexPad w n) = n := by
  rw [hexPad, ofDigits_leftpad, ofDigits_toDigits (by decide) (by decide)]

/-- A number that fits is printed at exactly the field width. -/
lemma length_hexPad {w n : ℕ} (hw : 0 < w) (hn : n < 16 ^ w) : (hexPad w n).length = w := by
  rw [hexPad, List.length_leftpad]
  exact max_eq_left ((Nat.length_toDigits_le_iff (by decide) hw).mpr hn)

lemma isDigit_of_mem_hexPad (w n : ℕ) : ∀ c ∈ hexPad w n, isDigit 16 c = true := by
  intro c hc
  rw [hexPad, List.leftpad, List.mem_append] at hc
  rcases hc with hc | hc
  · rw [List.eq_of_mem_replicate hc]; decide
  · exact isDigit_of_mem_toDigits (by decide) (by decide) n c hc

/-- A digit of a smaller base is one of a larger base. -/
lemma isDigit_mono {base base' : ℕ} (h : base ≤ base') {c : Char} (hc : isDigit base c = true) :
    isDigit base' c = true := by
  unfold isDigit at hc ⊢
  cases hv : digitVal c with
  | none => simp [hv] at hc
  | some v => simp only [hv, Option.any_some, decide_eq_true_eq] at hc ⊢; omega

/-! ## `stoi` -/

/-- The blanks `strtol` skips. -/
def isSpace (c : Char) : Bool :=
  c = ' ' || c = '\t' || c = '\n' || c = '\r' || c.toNat = 11 || c.toNat = 12

/-- Drop an optional `0x` in front of a hexadecimal digit. -/
def strip0x : Str → Str
  | '0' :: x :: c :: r => if (x = 'x' || x = 'X') && isDigit 16 c then c :: r else '0' :: x :: c :: r
  | s => s

/-- The digits at the front of a text, as an `int`: none on no digit (`invalid_argument`) and on
a value outside `int` (`out_of_range`). -/
def stoiDigits (base : ℕ) (neg : Bool) (s : Str) : Option ℤ :=
  let digits := s.takeWhile (isDigit base)
  if digits = [] then none
  else
    let v : ℤ := if neg then -(ofDigits base digits : ℤ) else ofDigits base digits
    if -2 ^ 31 ≤ v ∧ v < 2 ^ 31 then some v else none

/-- `std::stoi(s, nullptr, base)` for bases 10 and 16. -/
def stoi (base : ℕ) (s : Str) : Option ℤ :=
  match s.dropWhile isSpace with
  | '-' :: r => stoiDigits base true (if base = 16 then strip0x r else r)
  | '+' :: r => stoiDigits base false (if base = 16 then strip0x r else r)
  | r => stoiDigits base false (if base = 16 then strip0x r else r)

/-- A blank in front of a number is skipped. -/
lemma stoi_blank (base : ℕ) (s : Str) : stoi base (' ' :: s) = stoi base s := by
  have hspace : isSpace ' ' = true := by decide
  rw [stoi, stoi, List.dropWhile_cons_of_pos hspace]

/-- `0x` in front of hexadecimal digits. -/
def hexText (digits : Str) : Str := '0' :: 'x' :: digits

/-- A character that is no digit is not among digits. -/
lemma not_mem_digits {base : ℕ} {c : Char} {ds : Str} (hds : ∀ d ∈ ds, isDigit base d = true)
    (hc : isDigit base c = false) : c ∉ ds := by
  intro hmem
  rw [hds c hmem] at hc
  cases hc

lemma not_mem_hexText {c : Char} {ds : Str} (hds : ∀ d ∈ ds, isDigit 16 d = true)
    (hc : isDigit 16 c = false) (hx : c ≠ 'x') : c ∉ hexText ds := by
  have hzero : c ≠ '0' := by
    rintro rfl
    exact absurd hc (by decide)
  simp only [hexText, List.mem_cons, not_or]
  exact ⟨hzero, hx, not_mem_digits hds hc⟩

lemma stoiDigits_append {base : ℕ} {ds rest : Str} (hne : ds ≠ [])
    (hds : ∀ c ∈ ds, isDigit base c = true)
    (hrest : ∀ c ∈ rest.head?, isDigit base c = false) :
    stoiDigits base false (ds ++ rest)
      = if ofDigits base ds < 2 ^ 31 then some (ofDigits base ds : ℤ) else none := by
  have htake : (ds ++ rest).takeWhile (isDigit base) = ds := by
    rw [List.takeWhile_append_of_pos hds]
    cases rest with
    | nil => simp
    | cons c r => simp [hrest c (by simp)]
  have hcond : (-2 ^ 31 ≤ (ofDigits base ds : ℤ) ∧ (ofDigits base ds : ℤ) < 2 ^ 31)
      ↔ ofDigits base ds < 2 ^ 31 := by omega
  simp only [stoiDigits, htake, if_neg hne, Bool.false_eq_true, if_false, hcond]

/-- What `stoi` returns on a `0x` number. -/
theorem stoi_hexText {ds : Str} (hne : ds ≠ []) (hds : ∀ c ∈ ds, isDigit 16 c = true) :
    stoi 16 (hexText ds)
      = if ofDigits 16 ds < 2 ^ 31 then some (ofDigits 16 ds : ℤ) else none := by
  obtain ⟨c, r, rfl⟩ := List.exists_cons_of_ne_nil hne
  have hc : isDigit 16 c = true := hds c List.mem_cons_self
  have hstrip : strip0x ('0' :: 'x' :: c :: r) = c :: r := by simp [strip0x, hc]
  have hspace : isSpace '0' = false := by decide
  have h := @stoiDigits_append 16 (c :: r) [] hne hds (by simp)
  rw [List.append_nil] at h
  have hstoi : stoi 16 (hexText (c :: r)) = stoiDigits 16 false (strip0x ('0' :: 'x' :: c :: r)) := by
    rw [stoi, hexText, List.dropWhile_cons_of_neg (by simp [hspace])]
    rfl
  rw [hstoi, hstrip, h]

/-- A decimal digit is neither a blank nor a sign. -/
lemma not_space_of_isDigit {base : ℕ} {c : Char} (h : isDigit base c = true) :
    isSpace c = false ∧ c ≠ '-' ∧ c ≠ '+' := by
  unfold isDigit digitVal at h
  have hspace : ∀ d : Char, isSpace d = true → d.toNat ≤ 32 := by
    intro d hd
    simp only [isSpace, Bool.or_eq_true, decide_eq_true_eq] at hd
    rcases hd with ((((rfl | rfl) | rfl) | rfl) | h) | h
    all_goals first | decide | omega
  have hlow : 48 ≤ c.toNat := by
    split_ifs at h with h₁ h₂ h₃
    · exact h₁.1
    · exact le_trans (by decide) (show 'a'.toNat ≤ c.toNat from h₂.1)
    · exact le_trans (by decide) (show 'A'.toNat ≤ c.toNat from h₃.1)
    · simp at h
  refine ⟨?_, ?_, ?_⟩
  · by_contra hs
    have := hspace c (by simpa using hs)
    omega
  · rintro rfl
    exact absurd hlow (by decide)
  · rintro rfl
    exact absurd hlow (by decide)

/-- What `stoi` returns on a decimal number followed by something else. -/
theorem stoi_toDigits {n : ℕ} (hn : n < 2 ^ 31) {rest : Str}
    (hrest : ∀ c ∈ rest.head?, isDigit 10 c = false) :
    stoi 10 (Nat.toDigits 10 n ++ rest) = some (n : ℤ) := by
  have hds := @isDigit_of_mem_toDigits 10 (by decide) (by decide) n
  have hval := @ofDigits_toDigits 10 (by decide) (by decide) n
  have hparse := stoiDigits_append Nat.toDigits_ne_nil hds hrest
  rw [hval, if_pos hn] at hparse
  obtain ⟨c, r, hcr⟩ := List.exists_cons_of_ne_nil (Nat.toDigits_ne_nil (n := n) (b := 10))
  have hc := not_space_of_isDigit (hds c (by simp [hcr]))
  rw [hcr, List.cons_append] at hparse ⊢
  rw [stoi, List.dropWhile_cons_of_neg (by simp [hc.1])]
  split
  · next heq => exact absurd (List.cons.inj heq).1 hc.2.1
  · next heq => exact absurd (List.cons.inj heq).1 hc.2.2
  · simpa using hparse

end CText
