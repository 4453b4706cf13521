import Mathlib.Data.List.TakeWhile
import ThreeLaSim.Core.Numerals

/-!
# Searching and slicing texts

`std::string` and `std::getline` on lists of characters.  `find` answers `none` for `npos`; the
arithmetic the programs do on positions (`posAdd`, `posBetween`) is that of `size_t`, in which
`npos` is the largest value.  `substr` fails where the library function throws `out_of_range`.

A search over a text put together from pieces is settled piece by piece: a needle that avoids the
separator between two pieces lies inside one of them (`infix_sep_iff`), and a needle with a
character a piece lacks is not in that piece (`not_infix_of_not_mem`).
-/

namespace CText

/-- A character a text lacks, by inspection of the text. -/
lemma not_mem_of_all {c : Char} {s : Str} (h : s.all (· ≠ c) = true) : c ∉ s := by
  intro hc
  simpa using List.all_eq_true.mp h c hc

/-! ## `find` -/

/-- `s.find(needle)`, with `none` for `npos`. -/
def find (needle : Str) : Str → Option ℕ
  | [] => if needle = [] then some 0 else none
  | c :: s => if needle <+: c :: s then some 0 else (find needle s).map (· + 1)

/-- `s.find(needle) != npos`. -/
def contains (needle s : Str) : Bool := (find needle s).isSome

lemma find_of_prefix {needle s : Str} (h : needle <+: s) : find needle s = some 0 := by
  cases s with
  | nil => simp [find, List.prefix_nil.mp h]
  | cons c s => simp [find, h]

lemma contains_iff (needle : Str) : ∀ s : Str, contains needle s = true ↔ needle <:+: s
  | [] => by
      by_cases h : needle = []
      · simp [contains, find, h]
      · simp [contains, find, h]
  | c :: s => by
      have ih := contains_iff needle s
      rw [contains] at ih ⊢
      rw [find, List.infix_cons_iff]
      by_cases h : needle <+: c :: s
      · simp [h]
      · simp [h, ih]

lemma contains_eq_false_iff (needle s : Str) : contains needle s = false ↔ ¬ needle <:+: s := by
  rw [← contains_iff, Bool.not_eq_true]

lemma contains_append_left {needle a : Str} (h : contains needle a = true) (b : Str) :
    contains needle (a ++ b) = true := by
  rw [contains_iff] at h ⊢
  exact List.infix_append_of_infix_left h

lemma find_eq_none {needle s : Str} (h : ¬ needle <:+: s) : find needle s = none := by
  rw [← contains_iff, contains] at h
  simpa using h

/-- A needle is found behind a piece that lacks its first character. -/
lemma find_append {c : Char} {needle s : Str} (h : c :: needle <+: s) :
    ∀ pre : Str, c ∉ pre → find (c :: needle) (pre ++ s) = some pre.length
  | [], _ => find_of_prefix h
  | d :: pre, hpre => by
      have hd : c ≠ d := fun h => hpre (h ▸ List.mem_cons_self)
      have ih := find_append h pre fun h => hpre (List.mem_cons_of_mem _ h)
      have hno : ¬ c :: needle <+: d :: (pre ++ s) := fun h => hd (List.cons_prefix_cons.mp h).1
      rw [List.cons_append, find, if_neg hno, ih]
      rfl

/-- The first occurrence of a character. -/
lemma find_char {c : Char} {pre : Str} (h : c ∉ pre) (post : Str) :
    find [c] (pre ++ c :: post) = some pre.length :=
  find_append (List.prefix_append [c] post) pre h

/-- A needle is found behind a piece in which it does not begin. -/
lemma find_of_not_infix {needle s : Str} (h : needle <+: s) :
    ∀ pre : Str, ¬ needle <:+: pre ++ needle.dropLast → find needle (pre ++ s) = some pre.length
  | [], _ => find_of_prefix h
  | c :: pre, hpre => by
      have ih := find_of_not_infix h pre fun hinfix => hpre (List.infix_cons hinfix)
      have hno : ¬ needle <+: c :: (pre ++ s) := by
        intro hhere
        refine hpre (List.IsPrefix.isInfix ?_)
        -- the needle would begin here, and so be a prefix of the text searched
        have hneedle : c :: pre ++ needle.dropLast <+: c :: (pre ++ s) :=
          (List.prefix_append_right_inj (c :: pre)).mpr ((List.dropLast_prefix needle).trans h)
        refine List.prefix_of_prefix_length_le hhere hneedle ?_
        simp only [List.length_append, List.length_cons, List.length_dropLast]
        omega
      rw [List.cons_append, find, if_neg hno, ih]
      rfl

lemma not_infix_of_not_mem {needle s : Str} {c : Char} (hc : c ∈ needle) (hs : c ∉ s) :
    ¬ needle <:+: s := fun h => hs (h.subset hc)

/-- A needle without the separator lies on one side of it. -/
lemma infix_sep_iff {needle : Str} {c : Char} (hc : c ∉ needle) (a b : Str) :
    needle <:+: a ++ c :: b ↔ needle <:+: a ∨ needle <:+: b := by
  refine ⟨?_, ?_⟩
  · rintro ⟨u, v, h⟩
    rw [List.append_assoc, List.append_eq_append_iff] at h
    rcases h with ⟨w, hw₁, hw₂⟩ | ⟨w, hw₁, hw₂⟩
    · -- the needle starts inside `a`
      rw [List.append_eq_append_iff] at hw₂
      rcases hw₂ with ⟨z, hz₁, hz₂⟩ | ⟨z, hz₁, hz₂⟩
      · exact Or.inl ⟨u, z, by rw [hw₁, hz₁, List.append_assoc]⟩
      · cases z with
        | nil => exact Or.inl ⟨u, [], by rw [hw₁, hz₁]; simp⟩
        | cons d z =>
            have hd : c = d := (List.cons.inj hz₂).1
            exact absurd (hd ▸ hz₁ ▸ List.mem_append_right w List.mem_cons_self) hc
    · -- the needle starts behind `a`
      cases w with
      | nil =>
          cases needle with
          | nil => exact Or.inl List.nil_infix
          | cons d needle =>
              have hd : c = d := (List.cons.inj hw₂).1
              exact absurd (hd ▸ List.mem_cons_self) hc
      | cons d w => exact Or.inr ⟨w, v, by rw [List.append_assoc]; exact (List.cons.inj hw₂).2.symm⟩
  · rintro (h | h)
    · exact List.infix_append_of_infix_left h
    · exact List.infix_append_of_infix_right (List.infix_cons h)

/-- A text is put together from its pieces in one way, when the separator is not in the first. -/
lemma append_sep_inj {c : Char} :
    ∀ {a a' b b' : Str}, c ∉ a → c ∉ a' → a ++ c :: b = a' ++ c :: b' → a = a' ∧ b = b'
  | [], [], _, _, _, _, h => ⟨rfl, (List.cons.inj h).2⟩
  | [], d :: a', _, _, _, ha', h => absurd ((List.cons.inj h).1 ▸ List.mem_cons_self) ha'
  | d :: a, [], _, _, ha, _, h => absurd ((List.cons.inj h).1 ▸ List.mem_cons_self) ha
  | d :: a, d' :: a', _, _, ha, ha', h => by
      obtain ⟨hd, htail⟩ := List.cons.inj h
      have ih := append_sep_inj (fun hm => ha (List.mem_cons_of_mem d hm))
        (fun hm => ha' (List.mem_cons_of_mem d' hm)) htail
      exact ⟨by rw [hd, ih.1], ih.2⟩

/-- The same for two fields that are followed by longer separators with one first character. -/
lemma append_lit_inj {c : Char} {a a' b b' u u' lit lit' : Str} (hl : lit = c :: u)
    (hl' : lit' = c :: u') (ha : c ∉ a) (ha' : c ∉ a') (h : a ++ (lit ++ b) = a' ++ (lit' ++ b')) :
    a = a' ∧ u ++ b = u' ++ b' := by
  subst hl hl'
  exact append_sep_inj ha ha' h

/-! ## `rfind` -/

/-- `s.rfind(needle)`, with `none` for `npos`. -/
def rfind (needle : Str) : Str → Option ℕ
  | [] => if needle = [] then some 0 else none
  | c :: s =>
      match rfind needle s with
      | some i => some (i + 1)
      | none => if needle <+: c :: s then some 0 else none

/-- The last occurrence does not depend on what stands before it. -/
lemma rfind_append {needle s : Str} {i : ℕ} (h : rfind needle s = some i) :
    ∀ pre : Str, rfind needle (pre ++ s) = some (pre.length + i)
  | [] => by rw [List.nil_append, h, List.length_nil, Nat.zero_add]
  | c :: pre => by
      rw [List.cons_append, rfind, rfind_append h pre, List.length_cons, Nat.succ_add]

/-! ## Positions and slices -/

/-- `p + k` in `size_t` for `0 < k`: from `npos` it wraps round to `k - 1`. -/
def posAdd : Option ℕ → ℕ → ℕ
  | some i, k => i + k
  | none, k => k - 1

/-- `q - p - 1` in `size_t`: how many characters lie between two positions; a negative difference
wraps round. -/
def posBetween : Option ℕ → Option ℕ → ℕ
  | some j, some i => if i + 1 ≤ j then j - i - 1 else 2 ^ 64 + j - i - 1
  | none, some i => 2 ^ 64 - i - 2
  | some j, none => j
  | none, none => 2 ^ 64 - 1

/-- `s.substr(pos, len)`; none where it throws `out_of_range`. -/
def substr (s : Str) (pos len : ℕ) : Option Str :=
  if pos ≤ s.length then some ((s.drop pos).take len) else none

/-- `s.substr(pos)`. -/
def substrFrom (s : Str) (pos : ℕ) : Option Str :=
  if pos ≤ s.length then some (s.drop pos) else none

lemma substr_append {pre s post : Str} {pos len : ℕ} (hpos : pos = pre.length)
    (hlen : len = s.length) : substr (pre ++ (s ++ post)) pos len = some s := by
  subst hpos hlen
  rw [substr, if_pos (by simp), List.drop_left, List.take_left]

lemma substrFrom_append {pre s : Str} {pos : ℕ} (hpos : pos = pre.length) :
    substrFrom (pre ++ s) pos = some s := by
  subst hpos
  rw [substrFrom, if_pos (by simp), List.drop_left]

/-- The text between two bracketing pieces, as cut out by two searches. -/
lemma posBetween_some {i j : ℕ} (h : i + 1 ≤ j) : posBetween (some j) (some i) = j - i - 1 := by
  rw [posBetween, if_pos h]

/-! ## `getline` -/

/-- `getline(stream, s, delim)`: the text up to the delimiter and the rest of the stream behind
it; none at the end of the stream. -/
def getline (delim : Char) : Str → Option (Str × Str)
  | [] => none
  | s => some (s.takeWhile (· ≠ delim), (s.dropWhile (· ≠ delim)).drop 1)

/-- No character of a field stops the reading. -/
lemma ne_of_delim_not_mem {d : Char} {s : Str} (hs : d ∉ s) : ∀ c ∈ s, decide (c ≠ d) = true := by
  intro c hc
  simpa using fun h : c = d => hs (h ▸ hc)

lemma getline_append {d : Char} {s : Str} (hs : d ∉ s) (rest : Str) :
    getline d (s ++ d :: rest) = some (s, rest) := by
  have hpos := ne_of_delim_not_mem hs
  have hne : s ++ d :: rest ≠ [] := by simp
  obtain ⟨e, r, her⟩ := List.exists_cons_of_ne_nil hne
  rw [her, getline, ← her]
  · rw [List.takeWhile_append_of_pos hpos, List.dropWhile_append_of_pos hpos]
    simp
  · simp

/-- `getline(stream, s, delim)` as an assignment: what the variable holds afterwards and the rest of
the stream, `none` once it has ended.  A stream that has ended leaves the variable as it is. -/
def getlineInto (delim : Char) (s : Str) : Option Str → Str × Option Str
  | none => (s, none)
  | some input => (input.takeWhile (· ≠ delim),
      if delim ∈ input then some ((input.dropWhile (· ≠ delim)).drop 1) else none)

/-- The variable does not matter for the rest of the stream. -/
lemma getlineInto_rest (d : Char) (s s' : Str) (stream : Option Str) :
    (getlineInto d s stream).2 = (getlineInto d s' stream).2 := by
  cases stream with
  | none => rfl
  | some input => rfl

/-- The variable stays as it is or is overwritten. -/
lemma getlineInto_field (d : Char) (s s' : Str) (stream : Option Str) :
    (getlineInto d s stream).1 = s ∨ (getlineInto d s stream).1 = (getlineInto d s' stream).1 := by
  cases stream with
  | none => exact Or.inl rfl
  | some input => exact Or.inr rfl

/-- A field with its delimiter behind it. -/
lemma getlineInto_append {d : Char} {f : Str} (hf : d ∉ f) (s rest : Str) :
    getlineInto d s (some (f ++ d :: rest)) = (f, some rest) := by
  have hpos := ne_of_delim_not_mem hf
  rw [getlineInto, List.takeWhile_append_of_pos hpos, List.dropWhile_append_of_pos hpos,
    if_pos (List.mem_append_right f List.mem_cons_self)]
  simp

/-- The last field of a stream. -/
lemma getlineInto_last {d : Char} {f : Str} (hf : d ∉ f) (s : Str) :
    getlineInto d s (some f) = (f, none) := by
  have hpos := ne_of_delim_not_mem hf
  rw [getlineInto, List.takeWhile_eq_self_iff.mpr hpos, if_neg hf]

/-! ### Rows of fields -/

/-- One row: a `getline` for each delimiter; none when the stream ends inside it. -/
def getRow : List Char → Str → Option (List Str × Str)
  | [], s => some ([], s)
  | d :: ds, s => do
      let (field, s) ← getline d s
      let (fields, s) ← getRow ds s
      return (field :: fields, s)

/-- Rows until the stream has ended; every row takes at least one character. -/
def readRowsFuel (delims : List Char) : ℕ → Str → Option (List (List Str))
  | _, [] => some []
  | 0, _ => none
  | fuel + 1, s => do
      let (row, s) ← getRow delims s
      let rows ← readRowsFuel delims fuel s
      return row :: rows

/-- `while (getline(...)) ...` over a file of rows. -/
def readRows (delims : List Char) (s : Str) : Option (List (List Str)) :=
  readRowsFuel delims s.length s

/-- Fields, each with its delimiter behind it. -/
def printRow : List Char → List Str → Str
  | d :: ds, f :: fs => f ++ d :: printRow ds fs
  | _, _ => []

/-- No field contains its delimiter. -/
def RowOf (delims : List Char) (fields : List Str) : Prop :=
  List.Forall₂ (fun d f => d ∉ f) delims fields

/-- A row whose fields all end with the same delimiter. -/
lemma printRow_replicate (d : Char) :
    ∀ fs : List Str, printRow (List.replicate fs.length d) fs = fs.flatMap (· ++ [d])
  | [] => rfl
  | f :: fs => by
      rw [List.length_cons, List.replicate_succ, printRow, printRow_replicate d fs,
        List.flatMap_cons, List.append_assoc, List.singleton_append]

lemma rowOf_replicate {d : Char} {fs : List Str} (h : ∀ f ∈ fs, d ∉ f) :
    RowOf (List.replicate fs.length d) fs := by
  induction fs with
  | nil => exact .nil
  | cons f fs ih =>
      exact .cons (h f List.mem_cons_self) (ih fun g hg => h g (List.mem_cons_of_mem f hg))

lemma getRow_printRow {delims : List Char} {fields : List Str} (h : RowOf delims fields)
    (rest : Str) : getRow delims (printRow delims fields ++ rest) = some (fields, rest) := by
  induction h with
  | nil => rfl
  | cons hd _ ih =>
      rw [printRow, List.append_assoc, List.cons_append, getRow, getline_append hd]
      simp [ih]

lemma readRowsFuel_printRows {delims : List Char} (hne : delims ≠ []) :
    ∀ (rows : List (List Str)) (fuel : ℕ), rows.length ≤ fuel →
      (∀ row ∈ rows, RowOf delims row) →
        readRowsFuel delims fuel (rows.flatMap (printRow delims)) = some rows
  | [], fuel, _, _ => by cases fuel <;> rfl
  | row :: rows, 0, hlen, _ => by simp at hlen
  | row :: rows, fuel + 1, hlen, h => by
      have hrow : RowOf delims row := h row List.mem_cons_self
      have ih := readRowsFuel_printRows hne rows fuel (Nat.le_of_succ_le_succ hlen) fun r hr =>
        h r (List.mem_cons_of_mem _ hr)
      have hstart : printRow delims row ≠ [] := by
        cases hrow with
        | nil => exact absurd rfl hne
        | cons => simp [printRow]
      obtain ⟨c, s, hs⟩ := List.exists_cons_of_ne_nil (List.append_ne_nil_of_left_ne_nil hstart
        (rows.flatMap (printRow delims)))
      have hget := getRow_printRow hrow (rows.flatMap (printRow delims))
      rw [List.flatMap_cons, hs, readRowsFuel, ← hs, hget]
      · simp [ih]
      · simp

lemma length_le_length_printRows {delims : List Char} (hne : delims ≠ []) :
    ∀ rows : List (List Str), (∀ row ∈ rows, RowOf delims row) →
      rows.length ≤ (rows.flatMap (printRow delims)).length
  | [], _ => le_rfl
  | row :: rows, h => by
      have ih := length_le_length_printRows hne rows fun r hr => h r (List.mem_cons_of_mem _ hr)
      have hpos : 0 < (printRow delims row).length := by
        cases h row List.mem_cons_self with
        | nil => exact absurd rfl hne
        | cons => simp [printRow]
      rw [List.flatMap_cons, List.length_append, List.length_cons]
      omega

/-- **Reading a file of rows back.** -/
theorem readRows_printRows {delims : List Char} (hne : delims ≠ []) {rows : List (List Str)}
    (h : ∀ row ∈ rows, RowOf delims row) :
    readRows delims (rows.flatMap (printRow delims)) = some rows :=
  readRowsFuel_printRows hne rows _ (length_le_length_printRows hne rows h) h

/-- A loop whose turns all succeed. -/
lemma mapM_eq_some_map {α β : Type*} {f : α → Option β} {g : α → β} {l : List α}
    (h : ∀ a ∈ l, f a = some (g a)) : l.mapM f = some (l.map g) := by
  induction l with
  | nil => rfl
  | cons a l ih =>
      have hl := ih fun b hb => h b (List.mem_cons_of_mem a hb)
      rw [List.mapM_cons, h a List.mem_cons_self, hl]
      rfl

/-- A loop over numbered entries that does not look at the numbers. -/
lemma mapM_zipIdx_map {α β γ : Type*} {f : β → Option γ} {e : α → ℕ → β} {g : α → γ}
    (h : ∀ a n, f (e a n) = some (g a)) (l : List α) :
    (l.zipIdx.map fun p => e p.1 p.2).mapM f = some (l.map g) := by
  have hfst : l.zipIdx.map (fun p => g p.1) = l.map g := by
    have hmap := congrArg (List.map g) (List.zipIdx_map_fst 0 l)
    rwa [List.map_map] at hmap
  rw [List.mapM_map, ← hfst]
  refine mapM_eq_some_map ?_
  intro p _
  exact h p.1 p.2

/-- A loop with a turn that fails. -/
lemma mapM_eq_none {α β : Type*} {f : α → Option β} {l : List α} {a : α} (ha : a ∈ l)
    (h : f a = none) : l.mapM f = none := by
  induction l with
  | nil => simp at ha
  | cons b l ih =>
      rw [List.mapM_cons]
      rcases List.mem_cons.mp ha with rfl | ha
      · rw [h]
        rfl
      · rw [ih ha]
        cases f b with
        | none => rfl
        | some b => rfl

/-- A loop with a state, whose first turn succeeds. -/
lemma foldlM_cons_some {α σ : Type*} {f : σ → α → Option σ} {s s' : σ} {a : α}
    (h : f s a = some s') (l : List α) : (a :: l).foldlM f s = l.foldlM f s' := by
  rw [List.foldlM_cons, h, Option.bind_eq_bind, Option.bind_some]

/-- A loop whose turns all leave the state. -/
lemma foldlM_unchanged {α σ : Type*} {f : σ → α → Option σ} {s : σ} {l : List α}
    (h : ∀ a ∈ l, f s a = some s) : l.foldlM f s = some s := by
  induction l with
  | nil => rfl
  | cons a l ih =>
      rw [foldlM_cons_some (h a List.mem_cons_self)]
      exact ih fun b hb => h b (List.mem_cons_of_mem a hb)

/-- A loop with a state whose turns all succeed. -/
lemma foldlM_eq_some_foldl {α σ : Type*} {f : σ → α → Option σ} {g : σ → α → σ} {l : List α}
    (h : ∀ s, ∀ a ∈ l, f s a = some (g s a)) (s : σ) : l.foldlM f s = some (l.foldl g s) := by
  induction l generalizing s with
  | nil => rfl
  | cons a l ih =>
      have hl := ih fun s b hb => h s b (List.mem_cons_of_mem a hb)
      rw [foldlM_cons_some (h s a List.mem_cons_self), hl, List.foldl_cons]

/-! ## Hexadecimal values -/

/-- The number a `0x` text denotes; none for any other text. -/
def hexValue : Str → Option ℕ
  | '0' :: 'x' :: ds => if ds ≠ [] ∧ ds.all (isDigit 16) then some (ofDigits 16 ds) else none
  | _ => none

lemma hexValue_hexText {ds : Str} (hne : ds ≠ []) (hds : ∀ c ∈ ds, isDigit 16 c = true) :
    hexValue (hexText ds) = some (ofDigits 16 ds) := by
  rw [hexText, hexValue, if_pos ⟨hne, List.all_eq_true.mpr hds⟩]

/-- A stray character makes a text denote nothing. -/
lemma hexValue_eq_none {ds : Str} {c : Char} (hc : c ∈ ds) (hdigit : isDigit 16 c = false) :
    hexValue (hexText ds) = none := by
  rw [hexText, hexValue, if_neg]
  rintro ⟨-, hall⟩
  have := List.all_eq_true.mp hall c hc
  simp [hdigit] at this

end CText
