import Mathlib.Data.List.Forall2
import Mathlib.Data.List.Induction
import Mathlib.Logic.Function.Basic

/-!
# Runs and their histories

A step of a run is looked at together with the steps before it.  A machine that emits something at
each step emits, over a run, what each step yields in the state its history leads to; and a register
that some steps overwrite holds what the last of them wrote.

* **`exists_foldlM`** — what every step keeps, a run keeps.
* **`foldlM_histories`** — the output of a run, step by step.
* **`foldl_overwrite`** — the content of a register.
* **`foldl_view`** — a part of the state that only some steps write.
* **`writeAll_of_mem`** — the entries of a table that a loop fills, one in each turn.
-/

namespace History

variable {α β σ τ : Type*}

/-- **Invariants of a run**: when every step succeeds and keeps what holds of the steps so far and
the state, so does the run. -/
theorem exists_foldlM {f : σ → α → Option σ} {inv : List α → σ → Prop}
    (hstep : ∀ pre s a, inv pre s → ∃ s', f s a = some s' ∧ inv (pre ++ [a]) s') {s₀ : σ}
    (h₀ : inv [] s₀) (l : List α) : ∃ s', l.foldlM f s₀ = some s' ∧ inv l s' := by
  induction l using List.reverseRecOn with
  | nil => exact ⟨s₀, rfl, h₀⟩
  | append_singleton l a ih =>
      obtain ⟨s, hrun, hs⟩ := ih
      obtain ⟨s', hlast, hs'⟩ := hstep l s a hs
      refine ⟨s', ?_, hs'⟩
      rw [List.foldlM_append, hrun, Option.bind_eq_bind, Option.bind_some, List.foldlM_cons, hlast]
      rfl

/-- The steps of a run, each with the steps before it. -/
def histories (pre : List α) : List α → List (List α × α)
  | [] => []
  | a :: l => (pre, a) :: histories (pre ++ [a]) l

lemma mem_histories {pre l : List α} {x : List α × α} :
    x ∈ histories pre l ↔ ∃ mid post, x.1 = pre ++ mid ∧ l = mid ++ x.2 :: post := by
  induction l generalizing pre with
  | nil => simp [histories]
  | cons a l ih =>
      rw [histories, List.mem_cons, ih]
      constructor
      · rintro (rfl | ⟨mid, post, hx, rfl⟩)
        · exact ⟨[], l, by simp, rfl⟩
        · exact ⟨a :: mid, post, by simp [hx], rfl⟩
      · rintro ⟨mid, post, hx, hl⟩
        cases mid with
        | nil =>
            obtain ⟨rfl, rfl⟩ := List.cons.inj hl
            exact Or.inl (Prod.ext (by simpa using hx) rfl)
        | cons b mid =>
            obtain ⟨rfl, rfl⟩ := List.cons.inj hl
            exact Or.inr ⟨mid, post, by simp [hx], rfl⟩

/-- **The output of a run.**  The state is a control part, which the steps change, and the output so
far, which they extend. -/
theorem foldlM_histories {f : τ → α → Option τ} {mk : σ → List β → τ} {step : σ → α → σ}
    {emit : σ → α → List β} {l : List α}
    (h : ∀ s out, ∀ a ∈ l, f (mk s out) a = some (mk (step s a) (out ++ emit s a)))
    (s₀ : σ) (pre : List α) (out : List β) :
    l.foldlM f (mk (pre.foldl step s₀) out) = some (mk ((pre ++ l).foldl step s₀)
      (out ++ (histories pre l).flatMap fun x => emit (x.1.foldl step s₀) x.2)) := by
  induction l generalizing pre out with
  | nil => simp [histories]
  | cons a l ih =>
      have hnext : step (pre.foldl step s₀) a = (pre ++ [a]).foldl step s₀ := by simp
      have hrest := ih (fun s out b hb => h s out b (List.mem_cons_of_mem a hb)) (pre ++ [a])
        (out ++ emit (pre.foldl step s₀) a)
      rw [List.foldlM_cons, h _ _ a List.mem_cons_self, Option.bind_eq_bind, Option.bind_some, hnext,
        hrest, histories, List.flatMap_cons]
      simp

/-- Steps that emit one item each, against the items: the relation is checked step by step. -/
lemma forall₂_filter_flatMap {p : α → Prop} [DecidablePred p] {f : α → List β} {R : α → β → Prop}
    {l : List α} (hp : ∀ a ∈ l, p a → ∃ b, f a = [b]) (hn : ∀ a ∈ l, ¬ p a → f a = []) :
    List.Forall₂ R (l.filter (p ·)) (l.flatMap f) ↔ ∀ a ∈ l, p a → ∀ b ∈ f a, R a b := by
  induction l with
  | nil => simp
  | cons a l ih =>
      have hrest := ih (fun b hb => hp b (List.mem_cons_of_mem a hb)) fun b hb =>
        hn b (List.mem_cons_of_mem a hb)
      rw [List.flatMap_cons, List.forall_mem_cons, ← hrest]
      by_cases ha : p a
      · obtain ⟨b, hb⟩ := hp a List.mem_cons_self ha
        rw [List.filter_cons_of_pos (by simpa using ha), hb, List.singleton_append,
          List.forall₂_cons]
        simp [ha]
      · rw [List.filter_cons_of_neg (by simpa using ha), hn a List.mem_cons_self ha, List.nil_append]
        simp [ha]

/-- The last step of a kind. -/
def lastWhere (p : α → Bool) (l : List α) : Option α := l.reverse.find? p

@[simp] lemma lastWhere_nil (p : α → Bool) : lastWhere p [] = none := rfl

@[simp] lemma lastWhere_concat (p : α → Bool) (l : List α) (a : α) :
    lastWhere p (l ++ [a]) = if p a then some a else lastWhere p l := by
  rw [lastWhere, List.reverse_concat, List.find?_cons]
  cases p a with
  | true => rfl
  | false => rfl

lemma mem_of_lastWhere {p : α → Bool} {l : List α} {a : α} (h : lastWhere p l = some a) :
    a ∈ l ∧ p a = true :=
  ⟨List.mem_reverse.mp (List.mem_of_find?_eq_some h), List.find?_some h⟩

/-- There is a last step of a kind when there is one at all. -/
lemma exists_lastWhere {p : α → Bool} {l : List α} {a : α} (ha : a ∈ l) (hp : p a = true) :
    ∃ b, lastWhere p l = some b := by
  rw [← Option.isSome_iff_exists, lastWhere, List.find?_isSome]
  exact ⟨a, List.mem_reverse.mpr ha, hp⟩

/-- **A register holds what the last step that overwrites it wrote.** -/
theorem foldl_overwrite (p : α → Bool) (f : α → σ) (s₀ : σ) (l : List α) :
    l.foldl (fun s a => if p a then f a else s) s₀ = (lastWhere p l).elim s₀ f := by
  induction l using List.reverseRecOn with
  | nil => rfl
  | append_singleton l a ih =>
      rw [List.foldl_append, ih, lastWhere_concat]
      cases hp : p a with
      | true => simp [hp]
      | false => simp [hp]

/-- **A part of the state that only steps of one kind write** is written by these steps alone. -/
theorem foldl_view {step : σ → α → σ} (view : σ → τ) {write : τ → α → τ} {p : α → Bool} {l : List α}
    (h : ∀ s, ∀ a ∈ l, view (step s a) = if p a then write (view s) a else view s) (s : σ) :
    view (l.foldl step s) = (l.filter p).foldl write (view s) := by
  induction l generalizing s with
  | nil => rfl
  | cons a l ih =>
      have hrest := ih (fun s b hb => h s b (List.mem_cons_of_mem a hb)) (step s a)
      rw [List.foldl_cons, hrest, h s a List.mem_cons_self, List.filter_cons]
      cases p a with
      | true => rfl
      | false => rfl

/-! ## Tables -/

section Table

variable {κ : Type*} [DecidableEq κ] {key : α → κ} {val : α → β}

/-- Entries written one after another, each under its key. -/
def writeAll (key : α → κ) (val : α → β) (m : κ → β) (l : List α) : κ → β :=
  l.foldl (fun m a => Function.update m (key a) (val a)) m

lemma writeAll_cons (m : κ → β) (a : α) (l : List α) :
    writeAll key val m (a :: l) = writeAll key val (Function.update m (key a) (val a)) l := rfl

/-- A key under which nothing is written. -/
lemma writeAll_of_not_mem (m : κ → β) {l : List α} {k : κ} (h : k ∉ l.map key) :
    writeAll key val m l k = m k := by
  induction l generalizing m with
  | nil => rfl
  | cons a l ih =>
      rw [List.map_cons, List.mem_cons, not_or] at h
      rw [writeAll_cons, ih _ h.2, Function.update_of_ne h.1]

/-- **Entries under different keys stay.** -/
theorem writeAll_of_mem (m : κ → β) {l : List α} (h : (l.map key).Nodup) {a : α} (ha : a ∈ l) :
    writeAll key val m l (key a) = val a := by
  induction l generalizing m with
  | nil => simp at ha
  | cons b l ih =>
      rw [List.map_cons, List.nodup_cons] at h
      rw [writeAll_cons]
      rcases List.mem_cons.mp ha with rfl | ha
      · rw [writeAll_of_not_mem _ h.1, Function.update_self]
      · exact ih _ h.2 ha

/-- A table that is filled from 0 on, whatever the entries are made of. -/
lemma writeAll_of_map_eq_range {γ : Type*} {key : α → ℕ} {cell : α → γ} {val : γ → β} {v : ℕ → γ}
    {l : List α} {n : ℕ}
    (h : l.map (fun a => (key a, cell a)) = (List.range n).map fun i => (i, v i)) (m : ℕ → β) {i : ℕ}
    (hi : i < n) : writeAll key (fun a => val (cell a)) m l i = val (v i) := by
  have hkeys : (l.map key).Nodup := by
    have hfst := congrArg (List.map Prod.fst) h
    simp only [List.map_map, Function.comp_def, List.map_id'] at hfst
    rw [hfst]
    exact List.nodup_range
  have hmem : (i, v i) ∈ l.map fun a => (key a, cell a) := by
    rw [h]
    exact List.mem_map_of_mem (List.mem_range.mpr hi)
  obtain ⟨a, ha, heq⟩ := List.mem_map.mp hmem
  obtain ⟨rfl, hcell⟩ := Prod.mk.inj heq
  rw [writeAll_of_mem m hkeys ha, hcell]

end Table

end History
