import Mathlib.Data.List.Nodup
import Mathlib.Data.Set.Lattice
import Mathlib.Order.CompletePartialOrder
import ThreeLaSim.Core.TokenNet

/-!
# Instructions with footprints

A memory gives every location a value, and an instruction reads some locations and writes some.
Two instructions neither of which writes what the other one touches may be swapped
(`Respects.commute`).  So two orders of the same instructions have the same effect as soon as every
pair they disagree about may be swapped.

* `Respects` — an instruction keeps to its footprint, on the memories an invariant allows.
* **`runAll_eq_of_perm`** — two orders of the same instructions that disagree only about pairs that
  may be swapped.
* **`Net.Run.exists_of_reversed`** — what it takes for an interleaving of a token net to disagree
  with the program about a pair.
-/

namespace Footprint

/-! ## Footprints -/

section Memory

variable {L : Type*} {V : L → Type*}

/-- On the memories satisfying `P`, which `f` does not leave, `f` changes only the locations in
`writes`, to values that depend only on those in `reads`. -/
structure Respects (P : ((l : L) → V l) → Prop) (f : ((l : L) → V l) → (l : L) → V l)
    (reads writes : Set L) : Prop where
  keeps : ∀ σ, P σ → P (f σ)
  frame : ∀ σ, P σ → ∀ l ∉ writes, f σ l = σ l
  determined : ∀ σ τ, P σ → P τ → (∀ l ∈ reads, σ l = τ l) → ∀ l ∈ writes, f σ l = f τ l

variable {P : ((l : L) → V l) → Prop} {f g : ((l : L) → V l) → (l : L) → V l}
  {reads writes reads' writes' : Set L}

/-- Where only `f` writes, it does not matter whether `g` comes first. -/
lemma Respects.eq_of_mem (hf : Respects P f reads writes) (hg : Respects P g reads' writes')
    (hread : Disjoint writes' reads) (hwrite : Disjoint writes writes') {σ : (l : L) → V l}
    (hσ : P σ) {l : L} (hl : l ∈ writes) : f (g σ) l = g (f σ) l := by
  have hagree : ∀ k ∈ reads, g σ k = σ k := fun k hk =>
    hg.frame σ hσ k fun hk' => Set.disjoint_left.mp hread hk' hk
  calc f (g σ) l = f σ l := hf.determined _ _ (hg.keeps σ hσ) hσ hagree l hl
    _ = g (f σ) l := (hg.frame _ (hf.keeps σ hσ) l (Set.disjoint_left.mp hwrite hl)).symm

/-- **Instructions that do not write what the other one touches commute.** -/
theorem Respects.commute (hf : Respects P f reads writes) (hg : Respects P g reads' writes')
    (hread : Disjoint writes' reads) (hread' : Disjoint writes reads')
    (hwrite : Disjoint writes writes') {σ : (l : L) → V l} (hσ : P σ) : f (g σ) = g (f σ) := by
  funext l
  by_cases hl : l ∈ writes
  · exact hf.eq_of_mem hg hread hwrite hσ hl
  by_cases hl' : l ∈ writes'
  · exact (hg.eq_of_mem hf hread' hwrite.symm hσ hl').symm
  · rw [hf.frame _ (hg.keeps σ hσ) l hl, hg.frame σ hσ l hl', hg.frame _ (hf.keeps σ hσ) l hl',
      hf.frame σ hσ l hl]

end Memory

/-! ## Two orders of the same instructions -/

section Order

variable {I S : Type*} (exec : I → S → S) (P : S → Prop)

/-- Running a list of instructions from the left. -/
def runAll (l : List I) (s : S) : S := l.foldl (fun s i => exec i s) s

@[simp] lemma runAll_nil (s : S) : runAll exec [] s = s := rfl

@[simp] lemma runAll_cons (i : I) (l : List I) (s : S) :
    runAll exec (i :: l) s = runAll exec l (exec i s) := rfl

@[simp] lemma runAll_append (l l' : List I) (s : S) :
    runAll exec (l ++ l') s = runAll exec l' (runAll exec l s) :=
  List.foldl_append

lemma runAll_map {J : Type*} (f : J → I) (l : List J) (s : S) :
    runAll exec (l.map f) s = runAll (fun j => exec (f j)) l s :=
  List.foldl_map

variable {exec P}

/-- An instruction may be moved to the front, past those it may be swapped with. -/
theorem runAll_move_front {x : I} :
    ∀ {l : List I} (l' : List I), (∀ i ∈ l, ∀ s, P s → P (exec i s)) →
      (∀ y ∈ l, ∀ s, P s → exec x (exec y s) = exec y (exec x s)) →
      ∀ {s : S}, P s → runAll exec (l ++ x :: l') s = runAll exec (l ++ l') (exec x s)
  | [], _, _, _, _, _ => rfl
  | y :: l, l', hP, hswap, s, hs => by
      have ih := runAll_move_front l' (fun i hi => hP i (List.mem_cons_of_mem y hi))
        (fun z hz => hswap z (List.mem_cons_of_mem y hz)) (hP y List.mem_cons_self s hs)
      rw [List.cons_append, runAll_cons, ih, hswap y List.mem_cons_self s hs]
      rfl

/-- **Two orders of the same instructions have the same effect** when every pair they disagree
about may be swapped. -/
theorem runAll_eq_of_perm {prog t : List I} (hperm : t.Perm prog)
    (hP : ∀ i ∈ prog, ∀ s, P s → P (exec i s))
    (hswap : ∀ x y, [x, y].Sublist prog → [y, x].Sublist t →
      ∀ s, P s → exec x (exec y s) = exec y (exec x s)) {s : S} (hs : P s) :
    runAll exec t s = runAll exec prog s := by
  induction prog generalizing t s with
  | nil => rw [hperm.eq_nil]
  | cons x prog ih =>
      -- bring the first instruction of the program to the front
      obtain ⟨t₁, t₂, rfl⟩ := List.append_of_mem (hperm.mem_iff.mpr List.mem_cons_self)
      have hperm' : (t₁ ++ t₂).Perm prog := (List.perm_middle.symm.trans hperm).cons_inv
      have hsub : ∀ i ∈ t₁, i ∈ prog := fun i hi => hperm'.subset (List.mem_append_left t₂ hi)
      have hfront := runAll_move_front (x := x) (l := t₁) t₂
        (fun i hi => hP i (List.mem_cons_of_mem x (hsub i hi)))
        (fun y hy s hs => hswap x y
          ((List.singleton_sublist.mpr (hsub y hy)).cons_cons x)
          ((List.singleton_sublist.mpr hy).append (List.singleton_sublist.mpr List.mem_cons_self))
          s hs) hs
      rw [hfront, runAll_cons]
      refine ih hperm' (fun i hi => hP i (List.mem_cons_of_mem x hi)) ?_
        (hP x List.mem_cons_self s hs)
      intro y z hyz hzy
      refine hswap y z (hyz.cons x) (hzy.trans ?_)
      exact (List.Sublist.refl t₁).append (List.sublist_cons_self x t₂)

end Order

/-- A list without repetitions orders a pair in one way only. -/
lemma not_sublist_reversed {I : Type*} {x y : I} {l : List I} (hl : l.Nodup)
    (hxy : [x, y].Sublist l) : ¬ [y, x].Sublist l := by
  induction l with
  | nil => cases hxy
  | cons i l ih =>
      obtain ⟨hi, hl⟩ := List.nodup_cons.mp hl
      intro hyx
      cases hxy with
      | cons _ hxy =>
          cases hyx with
          | cons _ hyx => exact ih hl hxy hyx
          | cons_cons _ hx => exact hi (hxy.subset (List.mem_cons_of_mem x List.mem_cons_self))
      | cons_cons _ hy =>
          have hy := List.singleton_sublist.mp hy
          cases hyx with
          | cons _ hyx => exact hi (hyx.subset (List.mem_cons_of_mem y List.mem_cons_self))
          | cons_cons _ hx => exact hi hy

end Footprint

/-! ## Interleavings of a token net -/

namespace TokenNet.Net

variable {M Q I : Type*} [DecidableEq M] {N : Net M Q I} {prog t : List I} {s : State M Q}

/-- The program order, from any point of it on, is an interleaving. -/
lemma Replay.exists_run_append {c d : Q → ℕ} {l : List I} (h : N.Replay c l d) :
    ∀ (pre : List I) {s : State M Q}, N.Run (pre ++ l) pre s → s.queue = c →
      (∀ m, s.fired m = (N.own m pre).length) →
      ∃ s', N.Run (pre ++ l) (pre ++ l) s' ∧ N.Complete (pre ++ l) s' := by
  induction h with
  | nil c =>
      intro pre s hrun _ hfired
      rw [List.append_nil] at hrun ⊢
      exact ⟨s, hrun, hfired⟩
  | @cons c d i l enough rest ih =>
      intro pre s hrun hqueue hfired
      have hnext : N.next (pre ++ i :: l) s (N.owner i) = some i := by
        rw [next, hfired, own_append, List.getElem?_append_right le_rfl, Nat.sub_self]
        simp [own]
      have hstep : N.Run (pre ++ i :: l) (pre ++ [i]) (N.fire s i) :=
        .snoc hrun hnext fun q => by rw [hqueue]; exact enough q
      have happ : pre ++ i :: l = (pre ++ [i]) ++ l := by simp
      rw [happ] at hstep ⊢
      refine ih _ hstep (by rw [← hqueue]; rfl) fun m => ?_
      rw [own_append, List.length_append]
      by_cases hm : N.owner i = m
      · subst hm
        rw [fire_fired_self, hfired, own_singleton_self, List.length_singleton]
      · rw [fire_fired_of_ne s hm, hfired, own_singleton_of_ne hm, List.length_nil, Nat.add_zero]

/-- **The program order is an interleaving**, if the sequential replay does not block. -/
theorem Replay.exists_run {d : Q → ℕ} (h : N.Replay (fun _ => 0) prog d) :
    ∃ s, N.Run prog prog s ∧ N.Complete prog s :=
  h.exists_run_append [] .nil rfl fun _ => rfl

omit [DecidableEq M] in
variable (N) in
/-- Running the list in order from contents `c`, every instruction of another module than the one
before needs a token that one pushes. -/
def Chained (c : Q → ℕ) : List I → Prop
  | x :: y :: l =>
      (N.owner x ≠ N.owner y → ∃ q, N.owner x = N.producer q ∧ N.owner y = N.consumer q ∧
        c q < tokens N.pops q [x, y]) ∧
      Chained (fun q => c q - N.pops x q + N.pushes x q) (y :: l)
  | _ => True

namespace Chained

omit [DecidableEq M]

/-- A chained list is chained from any point on. -/
lemma of_append {l l' : List I} {c d : Q → ℕ} (h : N.Chained c (l ++ l')) (hd : N.Replay c l d) :
    N.Chained d l' := by
  induction hd with
  | nil c => exact h
  | @cons c d x l enough rest ih =>
      refine ih ?_
      cases hl : l ++ l' with
      | nil => trivial
      | cons y r =>
          rw [List.cons_append, hl] at h
          exact h.2

/-- Chained lists that overlap in one instruction. -/
lemma append {l l' : List I} {x : I} {c d : Q → ℕ} (h : N.Chained c (l ++ [x]))
    (hd : N.Replay c l d) (h' : N.Chained d (x :: l')) : N.Chained c (l ++ x :: l') := by
  induction hd with
  | nil c => exact h'
  | @cons c d y l enough rest ih =>
      cases l with
      | nil => exact ⟨h.1, ih trivial h'⟩
      | cons z l => exact ⟨h.1, ih h.2 h'⟩

end Chained

namespace Run

/-- What an interleaving begins with is an interleaving. -/
lemma of_append (t' : List I) (h : N.Run prog (t ++ t') s) : ∃ s', N.Run prog t s' := by
  induction t' using List.reverseRecOn generalizing s with
  | nil => exact ⟨s, by simpa using h⟩
  | append_singleton t' x ih =>
      rw [← List.append_assoc] at h
      obtain ⟨s₀, h₀, -⟩ := h.snoc_inv
      exact ih h₀

/-- What a module has fired, counted. -/
lemma length_own_trace (h : N.Run prog t s) (m : M) : (N.own m t).length = s.fired m := by
  rw [h.own_trace, List.length_take, Nat.min_eq_left (h.fired_le m)]

/-- A completed interleaving that turns a pair of the program around: the two instructions belong
to different modules, the later one fires without the earlier one, and the earlier one after the
later one. -/
lemma exists_of_reversed (h : N.Run prog t s) (hs : N.Complete prog s) (hnodup : prog.Nodup)
    {x y : I} (hxy : [x, y].Sublist prog) (hyx : [y, x].Sublist t) :
    N.owner x ≠ N.owner y ∧
    (∃ t₁ s₁, N.Run prog (t₁ ++ [y]) s₁ ∧ x ∉ t₁) ∧
    ∃ t₂ s₂, N.Run prog (t₂ ++ [x]) s₂ ∧ y ∈ t₂ := by
  have hnodup' : t.Nodup := (h.perm_of_complete hs).nodup_iff.mpr hnodup
  refine ⟨?_, ?_, ?_⟩
  · -- one module keeps the order of the program
    intro howner
    have hown := h.own_eq_of_complete hs (N.owner y)
    have hx : N.own (N.owner y) [x, y] = [x, y] := by simp [own, howner]
    have hy : N.own (N.owner y) [y, x] = [y, x] := by simp [own, howner]
    have hxy' : [x, y].Sublist (N.own (N.owner y) prog) := hx ▸ hxy.filter _
    have hyx' : [y, x].Sublist (N.own (N.owner y) t) := hy ▸ hyx.filter _
    rw [hown] at hyx'
    exact Footprint.not_sublist_reversed (hnodup.filter _) hxy' hyx'
  · obtain ⟨t₁, t₂, rfl⟩ := List.append_of_mem (hyx.subset List.mem_cons_self)
    obtain ⟨s₁, h₁⟩ := of_append (t := t₁ ++ [y]) t₂ (by simpa using h)
    refine ⟨t₁, s₁, h₁, fun hx => ?_⟩
    refine Footprint.not_sublist_reversed hnodup' ?_ hyx
    exact (List.singleton_sublist.mpr hx).append (List.singleton_sublist.mpr List.mem_cons_self)
  · have hxmem : x ∈ t := hyx.subset (List.mem_cons_of_mem y List.mem_cons_self)
    have hymem : y ∈ t := hyx.subset List.mem_cons_self
    obtain ⟨t₁, t₂, rfl⟩ := List.append_of_mem hxmem
    obtain ⟨s₁, h₁⟩ := of_append (t := t₁ ++ [x]) t₂ (by simpa using h)
    refine ⟨t₁, s₁, h₁, ?_⟩
    rcases List.mem_append.mp hymem with hy | hy
    · exact hy
    · rcases List.mem_cons.mp hy with rfl | hy
      · exact absurd hxy (List.nodup_iff_sublist.mp hnodup y)
      · -- then `y` would come after `x`
        refine absurd hyx (Footprint.not_sublist_reversed hnodup' ?_)
        exact ((List.singleton_sublist.mpr hy).cons_cons x).trans (List.sublist_append_right t₁ _)

/-- A complete interleaving in program order is the program. -/
lemma eq_of_prefix (h : N.Run prog t s) (hs : N.Complete prog s) (hpre : t <+: prog) : t = prog :=
  hpre.eq_of_length (h.perm_of_complete hs).length_eq

/-- **A program without concurrency**: if it is chained, its order is the only interleaving. -/
theorem prefix_of_chained (h : N.Run prog t s) {e : Q → ℕ} (he : N.Replay (fun _ => 0) prog e)
    (hchain : N.Chained (fun _ => 0) prog) : t <+: prog := by
  induction h with
  | nil => exact List.nil_prefix
  | @snoc t s m i run hnext enabled ih =>
      obtain ⟨r, rfl⟩ := ih
      have hm : N.owner i = m := owner_of_next hnext
      subst hm
      -- `i` is the first one of its module among what is left
      have hfirst : (N.own (N.owner i) r)[0]? = some i := by
        rwa [next, ← run.length_own_trace, own_append, List.getElem?_append_right le_rfl,
          Nat.sub_self] at hnext
      obtain ⟨l, hl⟩ : ∃ l, N.own (N.owner i) r = i :: l := by
        cases hown : N.own (N.owner i) r with
        | nil => simp [hown] at hfirst
        | cons j l => exact ⟨l, by simpa [hown] using hfirst⟩
      obtain ⟨u, r', rfl, hu, -⟩ := List.filter_eq_cons_iff.mp hl
      have hu' : N.own (N.owner i) u = [] := List.filter_eq_nil_iff.mpr hu
      induction u using List.reverseRecOn with
      | nil => exact ⟨r', by simp⟩
      | append_singleton u x _ =>
          -- the one before `i` would have had to push a token first
          have hx : N.owner x ≠ N.owner i := by simpa using hu x
          have happ : t ++ (u ++ [x] ++ i :: r') = (t ++ u) ++ x :: i :: r' := by simp
          rw [happ] at he hchain
          obtain ⟨d, hd, -⟩ := he.append_split
          obtain ⟨q, hxq, hiq, hlt⟩ := (hchain.of_append hd).1 hx
          refine absurd hlt (Nat.not_lt.mpr ?_)
          have hown : N.own (N.owner i) (t ++ u ++ [x, i]) = N.own (N.owner i) t ++ [i] := by
            have happ : t ++ u ++ [x, i] = t ++ ((u ++ [x]) ++ [i]) := by simp
            rw [happ, own_append, own_append, hu', own_singleton_self, List.nil_append]
          refine (run.snoc hnext enabled).tokens_le (b := t ++ u) ⟨r', by simp⟩ hd ?_ ?_
          · rw [← hiq, hown, List.length_append, run.length_own_trace, fire_fired_self,
              List.length_singleton]
          · rw [← hxq, fire_fired_of_ne s hx.symm, own_append, List.length_append,
              run.length_own_trace]
            exact Nat.le_add_right _ _

end Run

end TokenNet.Net
