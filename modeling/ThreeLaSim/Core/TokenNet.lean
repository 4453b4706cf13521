import Mathlib.Data.List.Perm.Subperm
import Mathlib.Data.List.Infix
import Mathlib.Algebra.BigOperators.Group.List.Basic
import Mathlib.Algebra.Order.BigOperators.Group.List
import Mathlib.Logic.Function.Basic
import Mathlib.Tactic.Ring

/-!
# Straight-line modules synchronised by counting queues

A `Net` says, for every instruction, which module runs it and how many tokens it takes from and
puts into each queue.  A program is one list of instructions; every module runs its own
instructions in the order of that list, and an instruction waits until each queue it pops holds
enough tokens.  The modules otherwise interleave freely.

Every queue has one producing and one consuming module (the two laws of `Net`), so the net is
persistent: what a module may do is never withdrawn by another one.

* `Replay` — the program run in list order by a single sequential interpreter.
* `Run` — an interleaving, with the instructions fired so far.
* **`Run.exists_enabled`** — if the sequential replay never blocks, no interleaving does.
* **`Run.queue_eq_of_complete`** — a completed interleaving leaves the queues as the replay does.
* **`Run.tokens_le`** — the causality rule: a consumer that has run ahead of the producer by a
  stretch `c` of the program has taken no more tokens than the replay had in the queue.
* **`Run.own_prefix_of_last`**, **`Run.own_trace_prefix_of_last`** — its two uses: which
  instructions must have fired, and which cannot have fired, when a given one does.
-/

namespace TokenNet

/-- Modules `M`, queues `Q` and instructions `I`; each queue has one producer and one consumer. -/
structure Net (M Q I : Type*) where
  owner : I → M
  pops : I → Q → ℕ
  pushes : I → Q → ℕ
  consumer : Q → M
  producer : Q → M
  pops_owner : ∀ i q, pops i q ≠ 0 → owner i = consumer q
  pushes_owner : ∀ i q, pushes i q ≠ 0 → owner i = producer q

/-- How many of its own instructions each module has fired, and the tokens in each queue. -/
@[ext]
structure State (M Q : Type*) where
  fired : M → ℕ
  queue : Q → ℕ

/-- Nothing fired, every queue empty. -/
def State.start {M Q : Type*} : State M Q := ⟨fun _ => 0, fun _ => 0⟩

@[simp] lemma State.start_fired {M Q : Type*} (m : M) :
    (State.start : State M Q).fired m = 0 := rfl

@[simp] lemma State.start_queue {M Q : Type*} (q : Q) :
    (State.start : State M Q).queue q = 0 := rfl

/-- The total weight of a list of instructions on queue `q`. -/
def tokens {Q I : Type*} (w : I → Q → ℕ) (q : Q) (l : List I) : ℕ := (l.map fun i => w i q).sum

section Tokens

variable {Q I : Type*} (w : I → Q → ℕ) (q : Q)

@[simp] lemma tokens_nil : tokens w q [] = 0 := rfl

@[simp] lemma tokens_cons (i : I) (l : List I) :
    tokens w q (i :: l) = w i q + tokens w q l := by
  simp [tokens]

@[simp] lemma tokens_append (l l' : List I) :
    tokens w q (l ++ l') = tokens w q l + tokens w q l' := by
  simp [tokens]

lemma tokens_le_of_prefix {l l' : List I} (h : l <+: l') : tokens w q l ≤ tokens w q l' := by
  obtain ⟨r, rfl⟩ := h
  simp

/-- Instructions of weight zero can be filtered out. -/
lemma tokens_filter (p : I → Bool) :
    ∀ l : List I, (∀ i ∈ l, w i q ≠ 0 → p i = true) → tokens w q (l.filter p) = tokens w q l
  | [], _ => rfl
  | i :: l, h => by
      have ih := tokens_filter p l fun j hj => h j (List.mem_cons_of_mem _ hj)
      cases hp : p i with
      | true => simp [hp, ih]
      | false =>
          have h0 : w i q = 0 := by
            by_contra hne
            simp [h i List.mem_cons_self hne] at hp
          simp [hp, ih, h0]

end Tokens

namespace Net

variable {M Q I J : Type*} (N : Net M Q I)

/-- The net read through a map of instructions. -/
def comap (f : J → I) : Net M Q J where
  owner j := N.owner (f j)
  pops j := N.pops (f j)
  pushes j := N.pushes (f j)
  consumer := N.consumer
  producer := N.producer
  pops_owner j := N.pops_owner (f j)
  pushes_owner j := N.pushes_owner (f j)

/-- Every queue the instruction pops holds enough tokens. -/
def Enabled (s : State M Q) (i : I) : Prop := ∀ q, N.pops i q ≤ s.queue q

/-- The sequential interpreter: run the list in order from queue contents `c`, ending in `d`. -/
inductive Replay : (Q → ℕ) → List I → (Q → ℕ) → Prop
  | nil (c : Q → ℕ) : Replay c [] c
  | cons {c d : Q → ℕ} {i : I} {l : List I} (enough : ∀ q, N.pops i q ≤ c q)
      (rest : Replay (fun q => c q - N.pops i q + N.pushes i q) l d) : Replay c (i :: l) d

variable [DecidableEq M]

/-- The instructions of module `m`, in program order. -/
def own (m : M) (l : List I) : List I := l.filter fun i => N.owner i = m

/-- The state after firing `i`. -/
def fire (s : State M Q) (i : I) : State M Q where
  fired := Function.update s.fired (N.owner i) (s.fired (N.owner i) + 1)
  queue := fun q => s.queue q - N.pops i q + N.pushes i q

/-- The instruction module `m` has to fire next. -/
def next (prog : List I) (s : State M Q) (m : M) : Option I := (N.own m prog)[s.fired m]?

/-- Every module has fired all of its instructions. -/
def Complete (prog : List I) (s : State M Q) : Prop := ∀ m, s.fired m = (N.own m prog).length

/-- The interleavings of `prog` from `s₀`, with the instructions fired so far in firing order. -/
inductive Run (prog : List I) : List I → State M Q → Prop
  | nil : Run prog [] State.start
  | snoc {t : List I} {s : State M Q} {m : M} {i : I} (run : Run prog t s)
      (hnext : N.next prog s m = some i) (enabled : N.Enabled s i) :
      Run prog (t ++ [i]) (N.fire s i)

end Net

/-! ## The sequential replay -/

namespace Net.Replay

variable {M Q I J : Type*} {N : Net M Q I}

/-- A replay of a concatenation splits at the seam. -/
lemma append_split : ∀ {l l' : List I} {c e : Q → ℕ}, N.Replay c (l ++ l') e →
    ∃ d, N.Replay c l d ∧ N.Replay d l' e
  | [], _, c, _, h => ⟨c, .nil c, h⟩
  | _ :: _, _, _, _, .cons enough rest => by
      obtain ⟨d, h₁, h₂⟩ := append_split rest
      exact ⟨d, .cons enough h₁, h₂⟩

lemma append : ∀ {l l' : List I} {c d e : Q → ℕ}, N.Replay c l d → N.Replay d l' e →
    N.Replay c (l ++ l') e
  | _, _, _, _, _, .nil _, h' => h'
  | _, _, _, _, _, .cons enough rest, h' => .cons enough (append rest h')

/-- Conservation: what is left is what was there, plus the pushes, minus the pops. -/
lemma tokens_eq {c d : Q → ℕ} {l : List I} (h : N.Replay c l d) (q : Q) :
    d q + tokens N.pops q l = c q + tokens N.pushes q l := by
  induction h with
  | nil c => simp
  | cons enough rest ih =>
      have he := enough q
      simp only [tokens_cons] at ih ⊢
      omega

/-- The replay of one instruction. -/
lemma single {c d : Q → ℕ} {i : I} (enough : ∀ q, N.pops i q ≤ c q)
    (hd : ∀ q, d q = c q - N.pops i q + N.pushes i q) : N.Replay c [i] d := by
  obtain rfl : d = fun q => c q - N.pops i q + N.pushes i q := funext hd
  exact .cons enough (.nil _)

/-- One instruction, then the rest. -/
lemma seq {c d e : Q → ℕ} {i : I} {l : List I} (h : N.Replay c [i] d) (h' : N.Replay d l e) :
    N.Replay c (i :: l) e :=
  h.append h'

/-- A replay of the images is a replay of what they are images of. -/
lemma comap {f : J → I} {c d : Q → ℕ} {l : List J} (h : N.Replay c (l.map f) d) :
    (N.comap f).Replay c l d := by
  induction l generalizing c with
  | nil => cases h; exact .nil _
  | cons j l ih =>
      cases h with
      | cons enough rest => exact .cons enough (ih rest)

/-- The images of a replay replay. -/
lemma map {f : J → I} {c d : Q → ℕ} {l : List J} (h : (N.comap f).Replay c l d) :
    N.Replay c (l.map f) d := by
  induction h with
  | nil c => exact .nil c
  | cons enough rest ih => exact .cons enough ih

/-- Replaying a list of blocks, given the queue contents at each block's start. -/
lemma flatMap_range (block : ℕ → List I) (c : ℕ → Q → ℕ) :
    ∀ n, (∀ s < n, N.Replay (c s) (block s) (c (s + 1))) →
      N.Replay (c 0) ((List.range n).flatMap block) (c n)
  | 0, _ => .nil _
  | n + 1, h => by
      rw [List.range_succ, List.flatMap_append]
      refine append (flatMap_range block c n fun s hs => h s (by omega)) ?_
      simpa using h n (by omega)

end Net.Replay

/-! ## Interleavings -/

namespace Net

variable {M Q I : Type*} [DecidableEq M] {N : Net M Q I}

@[simp] lemma own_nil (m : M) : N.own m [] = [] := rfl

@[simp] lemma own_append (m : M) (l l' : List I) : N.own m (l ++ l') = N.own m l ++ N.own m l' := by
  simp [own]

lemma own_singleton_self (i : I) : N.own (N.owner i) [i] = [i] := by simp [own]

lemma own_singleton_of_ne {m : M} {i : I} (h : N.owner i ≠ m) : N.own m [i] = [] := by
  simp [own, h]

@[simp] lemma fire_queue (s : State M Q) (i : I) (q : Q) :
    (N.fire s i).queue q = s.queue q - N.pops i q + N.pushes i q := rfl

lemma fire_fired_self (s : State M Q) (i : I) :
    (N.fire s i).fired (N.owner i) = s.fired (N.owner i) + 1 := by
  simp [fire]

lemma fire_fired_of_ne (s : State M Q) {i : I} {m : M} (h : N.owner i ≠ m) :
    (N.fire s i).fired m = s.fired m := by
  simp [fire, Function.update_of_ne (Ne.symm h)]

lemma own_mono (m : M) {l l' : List I} (h : l <+: l') : N.own m l <+: N.own m l' :=
  h.filter _

lemma mem_own {m : M} {l : List I} {i : I} : i ∈ N.own m l ↔ i ∈ l ∧ N.owner i = m := by
  simp [own]

/-- A split of a module's share comes from a split of the whole. -/
lemma exists_split_of_own {m : M} {t l l' : List I} {w : I} (h : N.own m t = l ++ w :: l') :
    ∃ t₁ t₂, t = t₁ ++ w :: t₂ ∧ N.own m t₂ = l' := by
  obtain ⟨u, t₂, rfl, -, hu⟩ := List.filter_eq_append_iff.mp h
  obtain ⟨u₁, u₂, rfl, -, -, hu₂⟩ := List.filter_eq_cons_iff.mp hu
  exact ⟨u ++ u₁, u₂, by simp, hu₂⟩

/-- The tokens popped from `q` are popped by its consumer. -/
lemma tokens_pops_own (q : Q) (l : List I) :
    tokens N.pops q (N.own (N.consumer q) l) = tokens N.pops q l :=
  tokens_filter _ _ _ _ fun i _ hi => by simp [N.pops_owner i q hi]

/-- The tokens pushed into `q` are pushed by its producer. -/
lemma tokens_pushes_own (q : Q) (l : List I) :
    tokens N.pushes q (N.own (N.producer q) l) = tokens N.pushes q l :=
  tokens_filter _ _ _ _ fun i _ hi => by simp [N.pushes_owner i q hi]

/-- The next instruction of a module belongs to it. -/
lemma owner_of_next {prog : List I} {s : State M Q} {m : M} {i : I}
    (h : N.next prog s m = some i) : N.owner i = m :=
  (mem_own.mp (List.mem_of_getElem? h)).2

/-- Where a module stands in the program when its next instruction is `i`, provided `i` occurs
only once. -/
lemma fired_eq_of_next {pre post : List I} {s : State M Q} {i : I}
    (hnodup : (pre ++ i :: post).Nodup)
    (h : N.next (pre ++ i :: post) s (N.owner i) = some i) :
    s.fired (N.owner i) = (N.own (N.owner i) pre).length := by
  have hown : N.own (N.owner i) (pre ++ i :: post)
      = N.own (N.owner i) pre ++ i :: N.own (N.owner i) post := by simp [own]
  have hnd : (N.own (N.owner i) (pre ++ i :: post)).Nodup := hnodup.filter _
  rw [next, hown] at h
  rw [hown] at hnd
  refine (List.getElem?_inj (List.getElem?_eq_some_iff.mp h).1 hnd).mp ?_
  rw [h]
  simp

namespace Run

variable {prog t : List I} {s : State M Q}

/-- What a module has fired is the beginning of its own instructions. -/
lemma own_trace (h : N.Run prog t s) (m : M) :
    N.own m t = (N.own m prog).take (s.fired m) := by
  induction h with
  | nil => simp
  | @snoc t s m' i run hnext enabled ih =>
      have hm' : N.owner i = m' := owner_of_next hnext
      subst hm'
      rw [own_append, ih]
      by_cases hm : N.owner i = m
      · subst hm
        have hi : (N.own (N.owner i) prog)[s.fired (N.owner i)]? = some i := hnext
        rw [own_singleton_self, fire_fired_self, List.take_add_one, hi]
        rfl
      · rw [own_singleton_of_ne hm, fire_fired_of_ne s hm, List.append_nil]

/-- A module never counts more instructions than it has. -/
lemma fired_le (h : N.Run prog t s) (m : M) : s.fired m ≤ (N.own m prog).length := by
  induction h with
  | nil => simp
  | @snoc t s m' i run hnext enabled ih =>
      have hm' : N.owner i = m' := owner_of_next hnext
      subst hm'
      by_cases hm : N.owner i = m
      · subst hm
        rw [fire_fired_self]
        exact (List.getElem?_eq_some_iff.mp hnext).1
      · rwa [fire_fired_of_ne s hm]

/-- Conservation along an interleaving. -/
lemma queue_add_pops (h : N.Run prog t s) (q : Q) :
    s.queue q + tokens N.pops q t = tokens N.pushes q t := by
  induction h with
  | nil => simp
  | @snoc t s m i run hnext enabled ih =>
      have he := enabled q
      simp only [fire_queue, tokens_append, tokens_cons, tokens_nil]
      omega

/-- A module that has fired at least the beginning `l` of the program has `l`'s tokens. -/
lemma own_prefix_trace (h : N.Run prog t s) {l : List I} (hl : l <+: prog) {m : M}
    (hm : (N.own m l).length ≤ s.fired m) : N.own m l <+: N.own m t := by
  rw [h.own_trace]
  exact List.prefix_take_iff.mpr ⟨own_mono m hl, hm⟩

/-- A module that has fired at most the beginning `l` of the program is inside `l`. -/
lemma own_trace_prefix (h : N.Run prog t s) {l : List I} (hl : l <+: prog) {m : M}
    (hm : s.fired m ≤ (N.own m l).length) : N.own m t <+: N.own m l := by
  rw [h.own_trace]
  obtain ⟨r, hr⟩ := own_mono (N := N) m hl
  rw [← hr, List.take_append_of_le_length hm]
  exact List.take_prefix _ _

/-- **The causality rule.**  Let the program begin with `b ++ c`, and let the sequential replay
of `b` leave `d`.  If the producer of `q` has not fired past `b` while the consumer of `q` has
fired all of `b ++ c`, then `c` pops at most the `d q` tokens the replay left after `b`. -/
theorem tokens_le (h : N.Run prog t s) {b c : List I} {d : Q → ℕ} {q : Q}
    (hbc : b ++ c <+: prog) (hd : N.Replay (fun _ => 0) b d)
    (hcons : (N.own (N.consumer q) (b ++ c)).length ≤ s.fired (N.consumer q))
    (hprod : s.fired (N.producer q) ≤ (N.own (N.producer q) b).length) :
    tokens N.pops q c ≤ d q := by
  have hb : b <+: prog := (List.prefix_append b c).trans hbc
  have hpops : tokens N.pops q (b ++ c) ≤ tokens N.pops q t := by
    rw [← tokens_pops_own q (b ++ c), ← tokens_pops_own q t]
    exact tokens_le_of_prefix _ _ (h.own_prefix_trace hbc hcons)
  have hpushes : tokens N.pushes q t ≤ tokens N.pushes q b := by
    rw [← tokens_pushes_own q b, ← tokens_pushes_own q t]
    exact tokens_le_of_prefix _ _ (h.own_trace_prefix hb hprod)
  have hrun := h.queue_add_pops q
  have hrep := hd.tokens_eq q
  simp only [tokens_append] at hpops
  omega

/-- The last step of an interleaving. -/
lemma snoc_inv {x : I} (h : N.Run prog (t ++ [x]) s) :
    ∃ s₀, N.Run prog t s₀ ∧ N.next prog s₀ (N.owner x) = some x ∧ N.Enabled s₀ x ∧
      s = N.fire s₀ x := by
  generalize hu : t ++ [x] = u at h
  cases h with
  | nil => simp at hu
  | @snoc t' s₀ m i run hnext enabled =>
      obtain ⟨rfl, hx⟩ := List.append_inj' hu rfl
      obtain rfl : x = i := by simpa using hx
      obtain rfl : N.owner x = m := owner_of_next hnext
      exact ⟨s₀, run, hnext, enabled, rfl⟩

/-- The instruction that fires last is one of the program's. -/
lemma mem_of_last {x : I} (h : N.Run prog (t ++ [x]) s) : x ∈ prog := by
  obtain ⟨s₀, -, hnext, -, -⟩ := h.snoc_inv
  exact (mem_own.mp (List.mem_of_getElem? hnext)).1

section Last

variable {x : I} {pre post : List I} (h : N.Run prog (t ++ [x]) s)
  (hprog : prog = pre ++ x :: post) (hnodup : prog.Nodup)
include h hprog hnodup

/-- **Must have fired.**  If the stretch from `y` to `x` pops more tokens of `q` than the replay
had before `y`, then `y` fires before `x`. -/
theorem own_prefix_of_last {b c : List I} {y : I} {d : Q → ℕ} {q : Q} (hpre : pre = b ++ y :: c)
    (hd : N.Replay (fun _ => 0) b d) (hx : N.owner x = N.consumer q)
    (hy : N.owner y = N.producer q) (hne : N.owner x ≠ N.owner y)
    (hpops : d q < tokens N.pops q (y :: c ++ [x])) :
    N.own (N.owner y) (b ++ [y]) <+: N.own (N.owner y) t := by
  obtain ⟨s₀, run, hnext, -, rfl⟩ := h.snoc_inv
  subst hprog hpre
  have hby : b ++ [y] <+: (b ++ y :: c) ++ x :: post := ⟨c ++ x :: post, by simp⟩
  refine run.own_prefix_trace hby ?_
  by_contra hlt
  rw [own_append, own_singleton_self, List.length_append, List.length_singleton] at hlt
  have hfired : (N.fire s₀ x).fired (N.owner x)
      = (N.own (N.owner x) (b ++ (y :: c ++ [x]))).length := by
    rw [fire_fired_self, fired_eq_of_next hnodup hnext, ← List.append_assoc,
      own_append _ (b ++ y :: c), own_singleton_self, List.length_append, List.length_singleton]
  have hbc : b ++ (y :: c ++ [x]) <+: (b ++ y :: c) ++ x :: post := ⟨post, by simp⟩
  have hprod : (N.fire s₀ x).fired (N.producer q) ≤ (N.own (N.producer q) b).length := by
    rw [← hy, fire_fired_of_ne s₀ hne]
    omega
  refine absurd (h.tokens_le hbc hd ?_ hprod) (by omega)
  rw [← hx, hfired]

/-- **Cannot have fired.**  If the stretch from `x` to `y` pops more tokens of `q` than the replay
had before `x`, then `y` does not fire before `x`. -/
theorem own_trace_prefix_of_last {c : List I} {y : I} {d : Q → ℕ} {q : Q}
    (hpre : pre ++ (c ++ [y]) <+: prog) (hd : N.Replay (fun _ => 0) pre d)
    (hx : N.owner x = N.producer q) (hy : N.owner y = N.consumer q)
    (hpops : d q < tokens N.pops q (c ++ [y])) :
    N.own (N.owner y) t <+: N.own (N.owner y) (pre ++ c) := by
  obtain ⟨s₀, run, hnext, -, rfl⟩ := h.snoc_inv
  have hc : pre ++ c <+: prog := by
    refine List.IsPrefix.trans ⟨[y], ?_⟩ hpre
    rw [List.append_assoc]
  refine run.own_trace_prefix hc ?_
  by_contra hlt
  have hprod : s₀.fired (N.producer q) ≤ (N.own (N.producer q) pre).length := by
    subst hprog
    rw [← hx, fired_eq_of_next hnodup hnext]
  refine absurd (run.tokens_le hpre hd ?_ hprod) (by omega)
  rw [← hy, ← List.append_assoc, own_append, own_singleton_self, List.length_append,
    List.length_singleton]
  omega

end Last

/-- The first instruction, in program order, that has not fired yet: every module has fired all
it owns before it, and it is the next one of its module. -/
lemma exists_frontier (s : State M Q) :
    ∀ (pre post : List I), (∀ m, (N.own m pre).length ≤ s.fired m) →
      (∃ m, s.fired m < (N.own m (pre ++ post)).length) →
      ∃ pre' i post', pre ++ post = pre' ++ i :: post' ∧
        (∀ m, (N.own m pre').length ≤ s.fired m) ∧
        s.fired (N.owner i) = (N.own (N.owner i) pre').length
  | pre, [], hpre, ⟨m, hm⟩ => by
      have := hpre m
      simp only [List.append_nil] at hm
      omega
  | pre, i :: post, hpre, hex => by
      by_cases hi : s.fired (N.owner i) = (N.own (N.owner i) pre).length
      · exact ⟨pre, i, post, rfl, hpre, hi⟩
      · have hpre' : ∀ m, (N.own m (pre ++ [i])).length ≤ s.fired m := by
          intro m
          have hm := hpre m
          rw [own_append, List.length_append]
          by_cases hmi : N.owner i = m
          · subst hmi
            rw [own_singleton_self, List.length_singleton]
            omega
          · rw [own_singleton_of_ne hmi, List.length_nil]
            omega
        have happ : pre ++ i :: post = (pre ++ [i]) ++ post := by simp
        rw [happ] at hex ⊢
        exact exists_frontier s (pre ++ [i]) post hpre' hex

/-- **No interleaving blocks** before completion when the sequential replay does not. -/
theorem exists_enabled (h : N.Run prog t s) {d : Q → ℕ} (hd : N.Replay (fun _ => 0) prog d)
    (hs : ¬ N.Complete prog s) :
    ∃ m i, N.next prog s m = some i ∧ N.Enabled s i := by
  have hex : ∃ m, s.fired m < (N.own m ([] ++ prog)).length := by
    by_contra hno
    refine hs fun m => le_antisymm (h.fired_le m) ?_
    by_contra hlt
    exact hno ⟨m, by simpa using hlt⟩
  obtain ⟨pre, i, post, hprog, hpre, hi⟩ := exists_frontier s [] prog (by simp) hex
  rw [List.nil_append] at hprog
  refine ⟨N.owner i, i, ?_, fun q => ?_⟩
  · rw [next, hprog, hi]
    simp [own]
  · -- the replay had enough tokens for `i` after `pre`; the interleaving has at least as many
    have hpfx : pre <+: prog := ⟨i :: post, hprog.symm⟩
    rw [hprog] at hd
    obtain ⟨c, hc, hi'⟩ := hd.append_split
    cases hi' with
    | cons enough rest =>
        have hpush : tokens N.pushes q pre ≤ tokens N.pushes q t := by
          rw [← tokens_pushes_own q pre, ← tokens_pushes_own q t]
          exact tokens_le_of_prefix _ _ (h.own_prefix_trace hpfx (hpre _))
        have hrun := h.queue_add_pops q
        have hrep := hc.tokens_eq q
        by_cases h0 : N.pops i q = 0
        · omega
        · have hown : N.owner i = N.consumer q := N.pops_owner i q h0
          have hpop : tokens N.pops q t ≤ tokens N.pops q pre := by
            rw [← tokens_pops_own q pre, ← tokens_pops_own q t]
            exact tokens_le_of_prefix _ _
              (h.own_trace_prefix hpfx (by rw [← hown]; exact hi.le))
          have := enough q
          omega

/-- A completed module has fired exactly its own instructions. -/
lemma own_eq_of_complete (h : N.Run prog t s) (hs : N.Complete prog s) (m : M) :
    N.own m t = N.own m prog := by
  rw [h.own_trace, hs m, List.take_length]

/-- **A completed interleaving leaves the queues as the sequential replay does.** -/
theorem queue_eq_of_complete (h : N.Run prog t s) {d : Q → ℕ}
    (hd : N.Replay (fun _ => 0) prog d) (hs : N.Complete prog s) : s.queue = d := by
  funext q
  have hpops : tokens N.pops q t = tokens N.pops q prog := by
    rw [← tokens_pops_own q t, ← tokens_pops_own q prog, h.own_eq_of_complete hs]
  have hpushes : tokens N.pushes q t = tokens N.pushes q prog := by
    rw [← tokens_pushes_own q t, ← tokens_pushes_own q prog, h.own_eq_of_complete hs]
  have hrun := h.queue_add_pops q
  have hrep := hd.tokens_eq q
  omega

/-- No instruction fires more often than it occurs in the program. -/
theorem subperm (h : N.Run prog t s) : t.Subperm prog := by
  classical
  refine List.subperm_ext_iff.mpr fun i _ => ?_
  have hsub : (N.own (N.owner i) t).Sublist (N.own (N.owner i) prog) := by
    rw [h.own_trace]
    exact List.take_sublist _ _
  have hcount : ∀ l : List I, List.count i (N.own (N.owner i) l) = List.count i l := fun l =>
    List.count_filter (by simp)
  rw [← hcount t, ← hcount prog]
  exact hsub.count_le i

/-- A completed interleaving has fired every instruction exactly as often as it occurs. -/
theorem perm_of_complete (h : N.Run prog t s) (hs : N.Complete prog s) : t.Perm prog := by
  classical
  refine List.perm_iff_count.mpr fun i => ?_
  have hcount : ∀ l : List I, List.count i (N.own (N.owner i) l) = List.count i l := fun l =>
    List.count_filter (by simp)
  rw [← hcount t, ← hcount prog, h.own_eq_of_complete hs]

/-- Every run is finite: it is no longer than the program. -/
theorem length_le (h : N.Run prog t s) : t.length ≤ prog.length := h.subperm.length_le

/-- An interleaving of images is the image of an interleaving. -/
theorem exists_map_eq {J : Type*} {f : J → I} {prog : List J} {t : List I} {s : State M Q}
    (h : N.Run (prog.map f) t s) : ∃ u, u.map f = t ∧ (N.comap f).Run prog u s := by
  have hown : ∀ m, N.own m (prog.map f) = ((N.comap f).own m prog).map f := by
    intro m
    simp only [own, List.filter_map]
    rfl
  induction h with
  | nil => exact ⟨[], rfl, .nil⟩
  | @snoc t s m i run hnext enabled ih =>
      obtain ⟨u, rfl, hu⟩ := ih
      rw [next, hown, List.getElem?_map] at hnext
      obtain ⟨j, hj, rfl⟩ := Option.map_eq_some_iff.mp hnext
      exact ⟨u ++ [j], by simp, .snoc hu hj enabled⟩

end Run

end Net

end TokenNet
