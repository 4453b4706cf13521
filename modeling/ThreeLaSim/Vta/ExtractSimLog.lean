import ThreeLaSim.Vta.IlaLog
import Mathlib.Logic.Function.Basic

/-!
# `extract_sim_log`: one log, many runs

The tool reads the log once, with two nested loops over one stream: the outer loop looks for a
start line and opens a file named after the run, the inner loop copies `[ILA-INFO]` lines into it
until the run reports success.  `extractStep` is one turn of either loop; the open file tells which
loop the tool is in.

* `runStep` — what a whole run does to the tool's files, whichever loop it meets.
* **`extract_run`** — reading a run's log is `runStep`, for any run and any state of the tool.
* **`separates_iff`** — when every run gets a file of its own: exactly when no run but the last
  fails and no two runs print the same name although their parameters differ.
-/

namespace ThreeLaSim

open CText

/-! ## The tool -/

/-- The names written to `file_list`, the log files by name, and the file open in the inner
loop. -/
structure ExtractState where
  fileList : List Str
  files : Str → Option (List Str)
  current : Option Str

/-- `temp.substr(tmp_pos+2)`: what is kept of an `[ILA-INFO]` line. -/
def stripLine (temp : Str) : Option Str := substrFrom temp (posAdd (find [']'] temp) 2)

/-- One line read; none where `substr` throws. -/
def extractStep (st : ExtractState) (temp : Str) : Option ExtractState :=
  match st.current with
  | none =>
      if contains instrStart temp then do
        let curFileName ← substrFrom temp (posAdd (find [']'] temp) 4)
        -- the file is opened with `ios::trunc`
        return { fileList := st.fileList ++ [curFileName]
                 files := Function.update st.files curFileName (some [])
                 current := some curFileName }
      else some st
  | some curFileName =>
      if contains testSuccessful temp then some { st with current := none }
      else if contains ilaInfo temp then do
        let out ← stripLine temp
        let written := (st.files curFileName).map (· ++ [out])
        return { st with files := Function.update st.files curFileName written }
      else some st

/-- The tool on a whole log. -/
def extractSimLog (log : List Str) : Option ExtractState :=
  log.foldlM extractStep ⟨[], fun _ => none, none⟩

/-! ## Lines -/

namespace IlaRecord

variable (r : IlaRecord)

/-- The tool keeps the payload of a record. -/
theorem stripLine_line : stripLine r.line = some r.payload := by
  obtain ⟨c, hline⟩ := r.line_eq
  have hfind : find [']'] r.line = some 9 := by
    rw [hline]
    exact find_char (by decide) (c :: r.payload)
  have hcut : r.line = ("[ILA-INFO".toList ++ [']', c]) ++ r.payload := by rw [hline]; simp
  rw [stripLine, hfind, hcut]
  exact substrFrom_append rfl

lemma contains_info : contains ilaInfo r.line = true := by
  obtain ⟨c, hline⟩ := r.line_eq
  rw [contains_iff, hline]
  exact ⟨[], c :: r.payload, rfl⟩

lemma not_contains_end : contains testSuccessful r.line = false := by
  rw [contains_eq_false_iff]
  refine not_infix_of_not_mem (c := '!') (by decide) (r.not_mem_line (by decide) ?_ ?_)
  · cases r.kind <;> decide
  · cases r.kind <;> decide

end IlaRecord

namespace TestRun

variable (r : TestRun)

/-- A start line up to its bracket. -/
lemma startLine_eq :
    r.startLine = "INFO [INSTR-START".toList ++ ']' :: (" - ".toList ++ r.params.name) := by
  have hlit : "INFO [INSTR-START] - ".toList =
      "INFO [INSTR-START".toList ++ ']' :: " - ".toList := by decide
  unfold startLine
  rw [hlit, List.append_assoc, List.cons_append]

lemma contains_start : contains instrStart r.startLine = true := by
  rw [contains_iff]
  exact ⟨"INFO ".toList, " - ".toList ++ r.params.name, by rw [← List.append_assoc]; rfl⟩

/-- The name is what stands behind the bracket. -/
lemma substrFrom_startLine :
    substrFrom r.startLine (posAdd (find [']'] r.startLine) 4) = some r.params.name := by
  have hfind : find [']'] r.startLine = some 17 := by
    rw [startLine_eq]
    exact find_char (by decide) _
  rw [hfind]
  exact substrFrom_append rfl

lemma startLine_not_contains_end : contains testSuccessful r.startLine = false := by
  rw [contains_eq_false_iff]
  refine not_infix_of_not_mem (c := '!') (by decide) ?_
  unfold startLine
  rw [List.mem_append, not_or]
  exact ⟨by decide, not_mem_name (.inl rfl) r.params⟩

/-- The brackets in a start line enclose the other marker. -/
lemma startLine_not_contains_info : contains ilaInfo r.startLine = false := by
  have hsplit : r.startLine =
      "INFO".toList ++ ' ' :: (instrStart ++ ' ' :: ("- ".toList ++ r.params.name)) := by
    have hlit : "INFO [INSTR-START] - ".toList =
        "INFO".toList ++ ' ' :: (instrStart ++ ' ' :: "- ".toList) := by decide
    unfold startLine
    rw [hlit, List.append_assoc, List.cons_append, List.append_assoc, List.cons_append]
  have hname : ¬ ilaInfo <:+: "- ".toList ++ r.params.name := by
    refine not_infix_of_not_mem (c := '[') (by decide) ?_
    rw [List.mem_append, not_or]
    exact ⟨by decide, not_mem_name (.inr rfl) r.params⟩
  rw [contains_eq_false_iff, hsplit, infix_sep_iff (by decide), infix_sep_iff (by decide), not_or,
    not_or]
  exact ⟨by decide, by decide, hname⟩

lemma endLine_of_success (h : r.errors = 0) :
    contains testSuccessful r.endLine = true := by
  unfold endLine
  rw [contains_iff, if_pos h]
  rcases r.params.closing_eq with hc | hc
  · rw [hc]
    exact ⟨"INFO - ALU ".toList, [], rfl⟩
  · rw [hc]
    exact ⟨"INFO - Blocked GEMM ".toList, [], rfl⟩

/-- A failed run ends with a line that the tool does not look for. -/
lemma endLine_of_failure (h : r.errors ≠ 0) : contains testSuccessful r.endLine = false ∧
    contains ilaInfo r.endLine = false := by
  have hline : ∀ c, c = 'u' ∨ c = '[' → c ∉ r.endLine := by
    rintro c hc
    have hdec : c ∉ dec r.errors := by rcases hc with rfl | rfl <;> exact not_mem_dec (by decide) _
    unfold endLine
    rw [if_neg h]
    simp only [List.mem_append, not_or]
    refine ⟨?_, ?_, hdec, ?_⟩
    · rcases r.params.closing_eq with h | h <;> rw [h] <;> rcases hc with rfl | rfl <;> decide
    · rcases hc with rfl | rfl <;> decide
    · rcases hc with rfl | rfl <;> decide
  rw [contains_eq_false_iff, contains_eq_false_iff]
  exact ⟨not_infix_of_not_mem (by decide) (hline 'u' (.inl rfl)),
    not_infix_of_not_mem (by decide) (hline '[' (.inr rfl))⟩

end TestRun

/-! ## Runs -/

/-- What a run does to the tool's state: met by the outer loop it gets a new file, met by the inner
loop its payloads go to the file that is open.  Only success closes a file. -/
def runStep (st : ExtractState) (r : TestRun) : ExtractState :=
  match st.current with
  | none =>
      { fileList := st.fileList ++ [r.params.name]
        files := Function.update st.files r.params.name (some r.payloads)
        current := if r.errors = 0 then none else some r.params.name }
  | some f =>
      { fileList := st.fileList
        files := Function.update st.files f ((st.files f).map (· ++ r.payloads))
        current := if r.errors = 0 then none else some f }

section Steps

variable {fl : List Str} {fs : Str → Option (List Str)} {f : Str}

lemma extractStep_skip {temp : Str} (hend : contains testSuccessful temp = false)
    (hinfo : contains ilaInfo temp = false) :
    extractStep ⟨fl, fs, some f⟩ temp = some ⟨fl, fs, some f⟩ := by
  simp [extractStep, hend, hinfo]

/-- Either loop skips a line without markers. -/
lemma extractStep_other (st : ExtractState) (o : OtherLine) : extractStep st o.text = some st := by
  obtain ⟨fl, fs, current⟩ := st
  cases current with
  | none => simp [extractStep, o.no_start]
  | some f => exact extractStep_skip o.no_end o.no_info

lemma foldlM_other (st : ExtractState) (lines : List OtherLine) :
    (lines.map OtherLine.text).foldlM extractStep st = some st := by
  refine foldlM_unchanged ?_
  intro line hline
  obtain ⟨o, -, rfl⟩ := List.mem_map.mp hline
  exact extractStep_other st o

/-- The inner loop adds the payloads of a body to the open file. -/
lemma foldlM_body : ∀ (fs : Str → Option (List Str)) (body : List (OtherLine ⊕ IlaRecord)),
    (body.map TestRun.bodyLine).foldlM extractStep ⟨fl, fs, some f⟩ = some
      ⟨fl, Function.update fs f ((fs f).map (· ++ (TestRun.recordsOf body).map IlaRecord.payload)),
        some f⟩
  | fs, [] => by simp [TestRun.recordsOf]
  | fs, .inl o :: body => by
      rw [List.map_cons, TestRun.bodyLine, foldlM_cons_some (extractStep_other _ o)]
      exact foldlM_body fs body
  | fs, .inr i :: body => by
      have hstep : extractStep ⟨fl, fs, some f⟩ i.line =
          some ⟨fl, Function.update fs f ((fs f).map (· ++ [i.payload])), some f⟩ := by
        simp [extractStep, i.not_contains_end, i.contains_info, i.stripLine_line]
      have ih := foldlM_body (Function.update fs f ((fs f).map (· ++ [i.payload]))) body
      rw [List.map_cons, TestRun.bodyLine, foldlM_cons_some hstep]
      refine ih.trans ?_
      simp [TestRun.recordsOf, Function.comp_def]

/-- The last line of a run closes the file on success only. -/
lemma extractStep_endLine (r : TestRun) : extractStep ⟨fl, fs, some f⟩ r.endLine =
    some ⟨fl, fs, if r.errors = 0 then none else some f⟩ := by
  by_cases h : r.errors = 0
  · simp [extractStep, r.endLine_of_success h, h]
  · obtain ⟨hend, hinfo⟩ := r.endLine_of_failure h
    rw [extractStep_skip hend hinfo, if_neg h]

end Steps

/-- **Reading the log of a run is `runStep`**, in either loop and whatever the outcome. -/
theorem extract_run (st : ExtractState) (r : TestRun) :
    r.log.foldlM extractStep st = some (runStep st r) := by
  obtain ⟨fl, fs, current⟩ := st
  rw [TestRun.log, List.foldlM_append, List.foldlM_append]
  cases current with
  | none =>
      have hstart : extractStep ⟨fl, fs, none⟩ r.startLine = some ⟨fl ++ [r.params.name],
          Function.update fs r.params.name (some []), some r.params.name⟩ := by
        simp [extractStep, r.contains_start, r.substrFrom_startLine]
      rw [foldlM_other, Option.bind_eq_bind, Option.bind_some, foldlM_cons_some hstart, foldlM_body]
      simp [extractStep_endLine, runStep, TestRun.payloads, TestRun.records]
  | some f =>
      have hstart : extractStep ⟨fl, fs, some f⟩ r.startLine = some ⟨fl, fs, some f⟩ :=
        extractStep_skip r.startLine_not_contains_end r.startLine_not_contains_info
      rw [foldlM_other, Option.bind_eq_bind, Option.bind_some, foldlM_cons_some hstart, foldlM_body]
      simp [extractStep_endLine, runStep, TestRun.payloads, TestRun.records]

/-- The log of a sequence of runs, and what is printed behind the last. -/
def logOf (runs : List TestRun) (trailer : List OtherLine) : List Str :=
  runs.flatMap TestRun.log ++ trailer.map OtherLine.text

lemma extract_runs : ∀ (runs : List TestRun) (st : ExtractState),
    (runs.flatMap TestRun.log).foldlM extractStep st = some (runs.foldl runStep st)
  | [], _ => rfl
  | r :: runs, st => by
      rw [List.flatMap_cons, List.foldlM_append, extract_run]
      exact extract_runs runs (runStep st r)

/-- The tool never fails on a log, and works run by run. -/
theorem extractSimLog_eq (runs : List TestRun) (trailer : List OtherLine) :
    extractSimLog (logOf runs trailer) = some (runs.foldl runStep ⟨[], fun _ => none, none⟩) := by
  rw [extractSimLog, logOf, List.foldlM_append, extract_runs, Option.bind_eq_bind,
    Option.bind_some, foldlM_other]

/-! ## Separation -/

/-- One file per run: the listed names are those of the runs and pairwise distinct, each run's file
holds exactly its payloads, and there is no other file. -/
structure Separated (runs : List TestRun) (out : ExtractState) : Prop where
  fileList : out.fileList = runs.map fun r => r.params.name
  nodup : out.fileList.Nodup
  files : ∀ r ∈ runs, out.files r.params.name = some r.payloads
  others : ∀ f, f ∉ out.fileList → out.files f = none

/-- The tool separates the runs of a log. -/
def Separates (runs : List TestRun) (trailer : List OtherLine) : Prop :=
  ∃ out, extractSimLog (logOf runs trailer) = some out ∧ Separated runs out

/-- The files after runs that all found the outer loop. -/
def writeFiles (fs : Str → Option (List Str)) (runs : List TestRun) : Str → Option (List Str) :=
  runs.foldl (fun fs r => Function.update fs r.params.name (some r.payloads)) fs

lemma writeFiles_of_not_mem {f : Str} :
    ∀ (runs : List TestRun) (fs : Str → Option (List Str)),
      f ∉ (runs.map fun r => r.params.name) → writeFiles fs runs f = fs f
  | [], _, _ => rfl
  | r :: runs, fs, hf => by
      rw [List.map_cons, List.mem_cons, not_or] at hf
      have ih := writeFiles_of_not_mem runs (Function.update fs r.params.name (some r.payloads)) hf.2
      exact ih.trans (Function.update_of_ne hf.1 _ _)

lemma writeFiles_of_mem : ∀ (runs : List TestRun) (fs : Str → Option (List Str)),
    (runs.map fun r => r.params.name).Nodup →
      ∀ r ∈ runs, writeFiles fs runs r.params.name = some r.payloads
  | q :: runs, fs, hnodup, r, hr => by
      rw [List.map_cons, List.nodup_cons] at hnodup
      rcases List.mem_cons.mp hr with rfl | hr
      · exact (writeFiles_of_not_mem runs _ hnodup.1).trans (Function.update_self ..)
      · exact writeFiles_of_mem runs _ hnodup.2 r hr

/-- While no run but the last fails, every run meets the outer loop. -/
lemma foldl_runStep_of_success : ∀ (runs : List TestRun) (fl : List Str)
    (fs : Str → Option (List Str)), (∀ r ∈ runs.dropLast, r.errors = 0) →
      (runs.foldl runStep ⟨fl, fs, none⟩).fileList = fl ++ runs.map (fun r => r.params.name) ∧
        (runs.foldl runStep ⟨fl, fs, none⟩).files = writeFiles fs runs
  | [], fl, fs, _ => by simp [writeFiles]
  | [r], fl, fs, _ => by simp [writeFiles, runStep]
  | r :: q :: runs, fl, fs, h => by
      have hr : r.errors = 0 := h r (by simp)
      have htail : ∀ r ∈ (q :: runs).dropLast, r.errors = 0 := fun r hr =>
        h r (by rw [List.dropLast_cons_cons]; exact List.mem_cons_of_mem _ hr)
      have ih := foldl_runStep_of_success (q :: runs) (fl ++ [r.params.name])
        (Function.update fs r.params.name (some r.payloads)) htail
      rw [List.foldl_cons, runStep, if_pos hr, ih.1, ih.2]
      simp [writeFiles]

/-- A run adds at most one name. -/
lemma length_fileList_le : ∀ (runs : List TestRun) (st : ExtractState),
    (runs.foldl runStep st).fileList.length ≤ st.fileList.length + runs.length
  | [], _ => le_rfl
  | r :: runs, st => by
      have ih := length_fileList_le runs (runStep st r)
      have hstep : (runStep st r).fileList.length ≤ st.fileList.length + 1 := by
        rw [runStep]
        split <;> simp
      rw [List.foldl_cons, List.length_cons]
      omega

/-- A name for every run means that every run met the outer loop. -/
lemma success_of_length : ∀ (runs : List TestRun) (fl : List Str) (fs : Str → Option (List Str)),
    (runs.foldl runStep ⟨fl, fs, none⟩).fileList.length = fl.length + runs.length →
      ∀ r ∈ runs.dropLast, r.errors = 0
  | [], _, _, _ => by simp
  | [_], _, _, _ => by simp
  | r :: q :: runs, fl, fs, hlen => by
      have hr : r.errors = 0 := by
        by_contra hr
        -- the next run is read by the inner loop and gets no name
        have hle := length_fileList_le runs (runStep (runStep ⟨fl, fs, none⟩ r) q)
        have hq : (runStep (runStep ⟨fl, fs, none⟩ r) q).fileList.length = fl.length + 1 := by
          simp [runStep, hr]
        rw [List.foldl_cons, List.foldl_cons] at hlen
        simp only [List.length_cons] at hlen
        omega
      rw [List.foldl_cons, runStep, if_pos hr] at hlen
      have ih := success_of_length (q :: runs) _ _ (hlen.trans (by simp; omega))
      intro p hp
      rw [List.dropLast_cons_cons] at hp
      rcases List.mem_cons.mp hp with rfl | hp
      · exact hr
      · exact ih p hp

/-- Names of runs with different parameters differ unless the printer drops the difference. -/
lemma nodup_names_iff {runs : List TestRun} (hdistinct : (runs.map TestRun.params).Nodup) :
    (runs.map fun r => r.params.name).Nodup ↔
      runs.Pairwise fun r q => ¬ r.params.Clash q.params := by
  rw [List.Nodup, List.pairwise_map] at hdistinct ⊢
  constructor
  · exact List.Pairwise.imp fun hname hclash => hname ((name_eq_iff _ _).mpr (.inr hclash))
  · intro hclash
    refine (hdistinct.and hclash).imp fun ⟨hne, hno⟩ hname => ?_
    rcases (name_eq_iff _ _).mp hname with heq | hcl
    · exact hne heq
    · exact hno hcl

/-- **When the tool separates runs with pairwise distinct parameters**: exactly when no run but
the last fails, and no two shifts, or unknown opcodes, agree in their sizes. -/
theorem separates_iff (runs : List TestRun) (trailer : List OtherLine)
    (hdistinct : (runs.map TestRun.params).Nodup) :
    Separates runs trailer ↔ (∀ r ∈ runs.dropLast, r.errors = 0) ∧
      runs.Pairwise fun r q => ¬ r.params.Clash q.params := by
  rw [Separates, extractSimLog_eq, ← nodup_names_iff hdistinct]
  constructor
  · rintro ⟨out, hout, hsep⟩
    obtain rfl := Option.some.inj hout
    refine ⟨success_of_length runs [] (fun _ => none) ?_, hsep.fileList ▸ hsep.nodup⟩
    rw [hsep.fileList, List.length_map, List.length_nil, Nat.zero_add]
  · rintro ⟨hsuccess, hnodup⟩
    obtain ⟨hlist, hfiles⟩ := foldl_runStep_of_success runs [] (fun _ => none) hsuccess
    rw [List.nil_append] at hlist
    refine ⟨_, rfl, hlist, hlist ▸ hnodup, fun r hr => ?_, fun f hf => ?_⟩
    · rw [hfiles]
      exact writeFiles_of_mem runs _ hnodup r hr
    · rw [hlist] at hf
      rw [hfiles]
      exact writeFiles_of_not_mem runs _ hf

/-- A run that prints one bias word. -/
def shortRun (params : TestParams) (errors : ℕ) : TestRun where
  params := params
  before := []
  body := [.inr ⟨.aluBias, 0, 7, by decide, by decide⟩]
  errors := errors

/-- The last run may fail. -/
theorem separates_two :
    Separates [shortRun (.alu .shr true 16 128 true) 0, shortRun (.gemm 16 16 16 false) 3] [] :=
  (separates_iff [shortRun (.alu .shr true 16 128 true) 0, shortRun (.gemm 16 16 16 false) 3] []
    (by decide)).mpr ⟨by simp [shortRun], by simp [shortRun, TestParams.Clash]⟩

/-- The two shifts of one size share a file, and a run that follows a failed one gets none. -/
theorem separates_fails :
    ((([.alu .shr true 16 128 true, .alu .shr false 16 128 true] : List TestParams).Nodup) ∧
      ¬ Separates [shortRun (.alu .shr true 16 128 true) 0,
        shortRun (.alu .shr false 16 128 true) 0] []) ∧
    ((([.alu .min true 16 128 true, .alu .min true 16 128 false] : List TestParams).Nodup) ∧
      ¬ Separates [shortRun (.alu .min true 16 128 true) 1,
        shortRun (.alu .min true 16 128 false) 0] []) := by
  refine ⟨⟨by decide, ?_⟩, by decide, ?_⟩
  · rintro ⟨out, hout, hsep⟩
    have hnodup := hsep.fileList ▸ hsep.nodup
    have hname : (TestParams.alu .shr true 16 128 true).name =
        (TestParams.alu .shr false 16 128 true).name := rfl
    simp [shortRun, hname] at hnodup
  · rintro ⟨out, hout, hsep⟩
    rw [extractSimLog_eq] at hout
    have hlist := hsep.fileList
    rw [← Option.some.inj hout] at hlist
    have hlen := congrArg List.length hlist
    simp [shortRun, runStep] at hlen

end ThreeLaSim
