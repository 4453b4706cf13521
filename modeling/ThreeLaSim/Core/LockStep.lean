import Mathlib.Data.List.Chain
import Mathlib.Data.List.GetD
import Mathlib.Data.Nat.Find

/-!
# Two streams read in lock-step

A driver reads two streams of commands in turns: in each turn one command of either stream, as far as
there is one.  Every command drives its side of the ports, and the ports stay for a while before the
next command; only some commands of the first stream pass on without a wait.

* `slots` — what the ports hold, one entry for each wait.
* **`slots_eq_map_reads`** — the ports show the commands read so far.
* **`isChain_reads`** — from one entry to the next, and up to the end, at most one more command of
  either stream is read: none is skipped.
* **`foldl_executed`** — a machine that executes what its ports hold, over and over, has executed
  every command once when a command executed twice does nothing more.
-/

namespace LockStep

variable {α β σ τ μ : Type*}

/-! ## Turns -/

/-- The turns of the driver. -/
def turns : List α → List β → List (Option α × Option β)
  | [], [] => []
  | a :: as, [] => (some a, none) :: turns as []
  | [], b :: bs => (none, some b) :: turns [] bs
  | a :: as, b :: bs => (some a, some b) :: turns as bs
  termination_by as bs => as.length + bs.length

/-- What the ports hold at each wait. -/
def slots (f : σ → α → σ) (g : τ → β → τ) (waits : α → Bool) :
    σ × τ → List (Option α × Option β) → List (σ × τ)
  | _, [] => []
  | p, (x, y) :: rest =>
      (if x.any waits then [(x.elim p.1 (f p.1), p.2)] else []) ++
        ((if y.isSome then [(x.elim p.1 (f p.1), y.elim p.2 (g p.2))] else []) ++
          slots f g waits (x.elim p.1 (f p.1), y.elim p.2 (g p.2)) rest)

/-- The commands read at each wait. -/
def reads (waits : α → Bool) (as : List α) (bs : List β) : List (List α × List β) :=
  slots (fun l a => l ++ [a]) (fun l b => l ++ [b]) waits ([], []) (turns as bs)

section Ports

variable (f : σ → α → σ) (g : τ → β → τ) (waits : α → Bool)

/-- The ports after some commands. -/
def ports (p : σ × τ) (l : List α × List β) : σ × τ := (l.1.foldl f p.1, l.2.foldl g p.2)

lemma slots_ports (p : σ × τ) (l : List α × List β) (rest : List (Option α × Option β)) :
    slots f g waits (ports f g p l) rest =
      (slots (fun l a => l ++ [a]) (fun l b => l ++ [b]) waits l rest).map (ports f g p) := by
  induction rest generalizing l with
  | nil => rfl
  | cons turn rest ih =>
      obtain ⟨x, y⟩ := turn
      have hx : x.elim (ports f g p l).1 (f (ports f g p l).1) =
          (x.elim l.1 fun a => l.1 ++ [a]).foldl f p.1 := by
        cases x with
        | none => rfl
        | some a => simp [ports]
      have hy : y.elim (ports f g p l).2 (g (ports f g p l).2) =
          (y.elim l.2 fun b => l.2 ++ [b]).foldl g p.2 := by
        cases y with
        | none => rfl
        | some b => simp [ports]
      have hrest := ih (x.elim l.1 fun a => l.1 ++ [a], y.elim l.2 fun b => l.2 ++ [b])
      rw [slots, slots, hx, hy, List.map_append, List.map_append, ← hrest]
      congr 1
      · split <;> rfl
      · congr 1
        split <;> rfl

/-- **The ports show the commands read so far.** -/
theorem slots_eq_map_reads (p : σ × τ) (as : List α) (bs : List β) :
    slots f g waits p (turns as bs) = (reads waits as bs).map (ports f g p) :=
  slots_ports f g waits p ([], []) (turns as bs)

end Ports

/-! ## No command is skipped -/

/-- At most one more command. -/
def Extends (l l' : List α) : Prop := l' = l ∨ ∃ a, l' = l ++ [a]

lemma Extends.refl (l : List α) : Extends l l := Or.inl rfl

lemma Extends.snoc (l : List α) (a : α) : Extends l (l ++ [a]) := Or.inr ⟨a, rfl⟩

lemma Extends.isPrefix {l l' : List α} (h : Extends l l') : l <+: l' := by
  rcases h with rfl | ⟨a, rfl⟩
  · exact List.prefix_rfl
  · exact List.prefix_append l [a]

/-- At most one more command of either stream. -/
def Follows (p q : List α × List β) : Prop := Extends p.1 q.1 ∧ Extends p.2 q.2

lemma Follows.refl (p : List α × List β) : Follows p p := ⟨.refl _, .refl _⟩

/-- The commands that pass on without a wait come last. -/
def WaitsUntilLast (waits : α → Bool) (as : List α) : Prop := ∀ a ∈ as.dropLast, waits a = true

lemma WaitsUntilLast.tail {waits : α → Bool} {a : α} {as : List α}
    (h : WaitsUntilLast waits (a :: as)) : WaitsUntilLast waits as := by
  intro c hc
  cases as with
  | nil => simp at hc
  | cons b as => exact h c (List.mem_cons_of_mem a hc)

lemma WaitsUntilLast.eq_nil {waits : α → Bool} {a : α} {as : List α}
    (h : WaitsUntilLast waits (a :: as)) (ha : waits a = false) : as = [] := by
  cases as with
  | nil => rfl
  | cons b as =>
      have := h a List.mem_cons_self
      rw [ha] at this
      cases this

lemma isChain_slots {waits : α → Bool} (as : List α) (bs : List β) (p : List α × List β)
    (h : WaitsUntilLast waits as) :
    List.IsChain Follows (p :: (slots (fun l a => l ++ [a]) (fun l b => l ++ [b]) waits p
      (turns as bs) ++ [(p.1 ++ as, p.2 ++ bs)])) := by
  induction as, bs using turns.induct generalizing p with
  | case1 => simpa [turns, slots] using Follows.refl p
  | case2 a as ih =>
      have hrest := ih (p.1 ++ [a], p.2) h.tail
      cases ha : waits a with
      | true =>
          have hstep : Follows p (p.1 ++ [a], p.2) := ⟨.snoc _ a, .refl _⟩
          simp only [turns, slots, Option.any_some, ha, if_true, Option.isSome_none,
            Bool.false_eq_true, if_false, List.nil_append, List.cons_append, Option.elim_some,
            Option.elim_none, List.append_assoc] at hrest ⊢
          exact .cons_cons hstep hrest
      | false =>
          have hnil := h.eq_nil ha
          subst hnil
          have hstep : Follows p (p.1 ++ [a], p.2) := ⟨.snoc _ a, .refl _⟩
          simpa [turns, slots, ha] using hstep
  | case3 b bs ih =>
      have hrest := ih (p.1, p.2 ++ [b]) h
      have hstep : Follows p (p.1, p.2 ++ [b]) := ⟨.refl _, .snoc _ b⟩
      simp only [turns, slots, Option.any_none, Bool.false_eq_true, if_false, Option.isSome_some,
        if_true, List.nil_append, List.cons_append, Option.elim_some, Option.elim_none,
        List.append_assoc] at hrest ⊢
      exact .cons_cons hstep hrest
  | case4 a as b bs ih =>
      have hrest := ih (p.1 ++ [a], p.2 ++ [b]) h.tail
      simp only [List.append_assoc, List.cons_append, List.nil_append] at hrest
      cases ha : waits a with
      | true =>
          have hfst : Follows p (p.1 ++ [a], p.2) := ⟨.snoc _ a, .refl _⟩
          have hsnd : Follows (p.1 ++ [a], p.2) (p.1 ++ [a], p.2 ++ [b]) := ⟨.refl _, .snoc _ b⟩
          simp only [turns, slots, Option.any_some, ha, if_true, Option.isSome_some,
            List.cons_append, List.nil_append, Option.elim_some]
          exact .cons_cons hfst (.cons_cons hsnd hrest)
      | false =>
          have hstep : Follows p (p.1 ++ [a], p.2 ++ [b]) := ⟨.snoc _ a, .snoc _ b⟩
          simp only [turns, slots, Option.any_some, ha, Bool.false_eq_true, if_false, if_true,
            Option.isSome_some, List.cons_append, List.nil_append, Option.elim_some]
          exact .cons_cons hstep hrest

/-- **No command is skipped.** -/
theorem isChain_reads {waits : α → Bool} {as : List α} (h : WaitsUntilLast waits as) (bs : List β) :
    List.IsChain Follows (([], []) :: (reads waits as bs ++ [(as, bs)])) :=
  isChain_slots as bs ([], []) h

/-! ## Time -/

/-- What the ports hold at any time: when the streams have ended, nothing changes any more. -/
def timeline (entries : List σ) (last : σ) (k : ℕ) : σ := entries.getD k last

lemma timeline_of_length_le {entries : List σ} {last : σ} {k : ℕ} (h : entries.length ≤ k) :
    timeline entries last k = last := List.getD_eq_default _ _ h

lemma timeline_map (φ : σ → τ) (entries : List σ) (last : σ) (k : ℕ) :
    timeline (entries.map φ) (φ last) k = φ (timeline entries last k) := by
  rw [timeline, timeline, List.getD_map]

/-- What holds between neighbours holds at all times. -/
lemma timeline_of_isChain {R : σ → σ → Prop} (hrefl : ∀ s, R s s) {first last : σ} :
    ∀ {entries : List σ}, List.IsChain R (first :: (entries ++ [last])) →
      R first (timeline entries last 0) ∧
        ∀ k, R (timeline entries last k) (timeline entries last (k + 1))
  | [], h => ⟨(List.isChain_cons_cons.mp h).1, fun _ => hrefl last⟩
  | s :: entries, h => by
      obtain ⟨hfirst, hrest⟩ := List.isChain_cons_cons.mp h
      obtain ⟨hzero, hsucc⟩ := timeline_of_isChain hrefl hrest
      refine ⟨hfirst, ?_⟩
      intro k
      cases k with
      | zero => exact hzero
      | succ k => exact hsucc k

/-- The commands read up to a time. -/
def readAt (waits : α → Bool) (as : List α) (bs : List β) (k : ℕ) : List α × List β :=
  timeline (reads waits as bs) (as, bs) k

lemma readAt_of_length_le {waits : α → Bool} {as : List α} {bs : List β} {k : ℕ}
    (h : (reads waits as bs).length ≤ k) : readAt waits as bs k = (as, bs) :=
  timeline_of_length_le h

/-- The ports show the commands read up to a time. -/
lemma timeline_ports (f : σ → α → σ) (g : τ → β → τ) (waits : α → Bool) (p : σ × τ) (as : List α)
    (bs : List β) (k : ℕ) :
    timeline (slots f g waits p (turns as bs)) (ports f g p (as, bs)) k =
      ports f g p (readAt waits as bs k) := by
  rw [slots_eq_map_reads, timeline_map]
  rfl

section Reading

variable {waits : α → Bool} {as : List α} (h : WaitsUntilLast waits as) (bs : List β)

include h

lemma follows_readAt_zero : Follows ([], []) (readAt waits as bs 0) :=
  (timeline_of_isChain Follows.refl (isChain_reads h bs)).1

lemma follows_readAt_succ (k : ℕ) :
    Follows (readAt waits as bs k) (readAt waits as bs (k + 1)) :=
  (timeline_of_isChain Follows.refl (isChain_reads h bs)).2 k

lemma readAt_prefix (k : ℕ) : (readAt waits as bs k).1 <+: as ∧ (readAt waits as bs k).2 <+: bs := by
  have hgrow : ∀ (i d : ℕ), (readAt waits as bs i).1 <+: (readAt waits as bs (i + d)).1 ∧
      (readAt waits as bs i).2 <+: (readAt waits as bs (i + d)).2 := by
    intro i d
    induction d with
    | zero => exact ⟨List.prefix_rfl, List.prefix_rfl⟩
    | succ d ih =>
        obtain ⟨hfst, hsnd⟩ := follows_readAt_succ h bs (i + d)
        exact ⟨ih.1.trans hfst.isPrefix, ih.2.trans hsnd.isPrefix⟩
  have hlast := hgrow k (reads waits as bs).length
  rwa [readAt_of_length_le (Nat.le_add_left _ _)] at hlast

end Reading

/-- A condition that is met from some time on is met at the first of the times at which it is looked
at, as long as these do not stop. -/
lemma exists_first {P : ℕ → Prop} {n : ℕ} (h : ∀ k, n ≤ k → P k) {seen : ℕ → ℕ}
    (hseen : ∀ k, ∃ q, k ≤ seen q) : ∃ q, P (seen q) ∧ ∀ q' < q, ¬ P (seen q') := by
  classical
  have hex : ∃ q, P (seen q) := by
    obtain ⟨q, hq⟩ := hseen n
    exact ⟨q, h _ hq⟩
  exact ⟨Nat.find hex, Nat.find_spec hex, fun q' hq' => Nat.find_min hex hq'⟩

/-- Only the last command of a stream ends it, so a stream read up to such a command is read to its
end. -/
lemma last_iff_eq {P : α → Prop} {pre l : List α} {e : α} (hpre : ∀ a ∈ pre, ¬ P a) (he : P e)
    (hl : l <+: pre ++ [e]) : (∃ a, l.getLast? = some a ∧ P a) ↔ l = pre ++ [e] := by
  constructor
  · rintro ⟨a, ha, hP⟩
    rcases List.prefix_concat_iff.mp hl with h | h
    · exact h
    · exact absurd hP (hpre a (h.subset (List.mem_of_getLast? ha)))
  · rintro rfl
    exact ⟨e, by simp, he⟩

/-! ## Execution -/

/-- What a machine has done after the times up to `k`, when it executes what its ports hold at each
of them. -/
def executed (exec : μ → σ → μ) (m₀ : μ) (held : ℕ → σ) (k : ℕ) : μ :=
  (List.range (k + 1)).foldl (fun m i => exec m (held i)) m₀

lemma executed_succ (exec : μ → σ → μ) (m₀ : μ) (held : ℕ → σ) (k : ℕ) :
    executed exec m₀ held (k + 1) = exec (executed exec m₀ held k) (held (k + 1)) := by
  rw [executed, executed, List.range_succ, List.foldl_append]
  rfl

/-- **Every command is executed once.** -/
theorem foldl_executed {exec : μ → σ → μ} {f : σ → α → σ} {act : μ → α → μ} {s₀ : σ} {m₀ : μ}
    (hreset : ∀ m, exec m s₀ = m) (hact : ∀ m s a, exec m (f s a) = act m a)
    (htwice : ∀ m a, act (act m a) a = act m a) {read : ℕ → List α} (hzero : Extends [] (read 0))
    (hsucc : ∀ k, Extends (read k) (read (k + 1))) (k : ℕ) :
    executed exec m₀ (fun i => (read i).foldl f s₀) k = (read k).foldl act m₀ := by
  have hstep : ∀ (l : List α) (a : α) (m : μ), exec m ((l ++ [a]).foldl f s₀) = act m a := by
    intro l a m
    rw [List.foldl_append]
    exact hact m _ a
  -- executing what the ports hold once more
  have hagain : ∀ l : List α, exec (l.foldl act m₀) (l.foldl f s₀) = l.foldl act m₀ := by
    intro l
    induction l using List.reverseRecOn with
    | nil => exact hreset m₀
    | append_singleton l a =>
        rw [hstep, List.foldl_append]
        exact htwice _ a
  have hnext : ∀ l l' : List α, Extends l l' →
      exec (l.foldl act m₀) (l'.foldl f s₀) = l'.foldl act m₀ := by
    rintro l l' (rfl | ⟨a, rfl⟩)
    · exact hagain l'
    · rw [hstep, List.foldl_append]
      rfl
  induction k with
  | zero => exact hnext [] (read 0) hzero
  | succ k ih =>
      rw [executed_succ, ih]
      exact hnext _ _ (hsucc k)

end LockStep
