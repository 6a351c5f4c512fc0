import RunnerYard.Base.Time
import Mathlib.Data.List.Nodup

/-!
# Required checks

`checks.go`: the state of a stack from the check runs on its top commit. The newest run of a name counts, a check that does not apply to the changed files is satisfied at once, and a check that never reports fails at the timeout. `filepath.Match` is the parameter `glob`.
-/

namespace RunnerYard

namespace MergeQueue

structure RequiredCheck where
  name : String
  paths : List String
  deriving DecidableEq, Repr

structure CheckRun where
  id : Int
  name : String
  status : String
  conclusion : String
  url : String
  suiteID : Int
  startedAt : Int
  deriving DecidableEq, Repr

/-- The states of a stack's checks; `unset` stands for the empty text of checks that were not evaluated. -/
inductive CheckState where
  | unset
  | pending
  | success
  | failure
  deriving DecidableEq, Repr

structure Status where
  state : CheckState := .unset
  failing : List String := []
  urls : List String := []
  suites : List Int := []
  deriving DecidableEq, Repr

variable (glob : String → String → Bool)

/-- `strings.CutSuffix(pattern, "/**")`. -/
def cutDirectory (pattern : String) : Option String :=
  if "/**".toList.isSuffixOf pattern.toList then some (String.ofList (pattern.toList.take (pattern.toList.length - 3))) else none

def matchPath (pattern file : String) : Bool :=
  match cutDirectory pattern with
  | some directory => file == directory || (directory ++ "/").toList.isPrefixOf file.toList
  | none => glob pattern file

def applicable (check : RequiredCheck) (changedFiles : List String) : Bool :=
  check.paths.isEmpty || changedFiles.any fun file => check.paths.any fun pattern => matchPath glob pattern file

def passed (conclusion : String) : Bool := conclusion ∈ ["success", "neutral", "skipped"]

def newer (name : String) (current : Option CheckRun) (run : CheckRun) : Option CheckRun :=
  if run.name = name && current.all (·.id < run.id) then some run else current

/-- The run of this name with the highest id, the first one of several. -/
def newest (runs : List CheckRun) (name : String) : Option CheckRun := runs.foldl (newer name) none

/-- How one required check stands. `retriedAt` is zero for a stack not retried; a failure from before the retry counts as not reported. -/
def reported (runs : List CheckRun) (retriedAt : Int) (check : RequiredCheck) : Option CheckRun :=
  (newest runs check.name).filter fun run =>
    !(run.status = "completed" && !passed run.conclusion && retriedAt ≠ 0 && run.startedAt < retriedAt)

def evaluateOne (runs : List CheckRun) (age timeout retriedAt : Int) (found : Bool × Status) (check : RequiredCheck) : Bool × Status :=
  match reported runs retriedAt check with
  | none => if timeout ≤ age then (found.1, { found.2 with failing := found.2.failing ++ [check.name] }) else (true, found.2)
  | some run =>
    if run.status ≠ "completed" then (true, found.2)
    else if passed run.conclusion then found
    else (found.1,
      { found.2 with
        failing := found.2.failing ++ [check.name]
        urls := if run.url ≠ "" then found.2.urls ++ [run.url] else found.2.urls
        suites := if run.suiteID ≠ 0 then found.2.suites ++ [run.suiteID] else found.2.suites })

def evaluate (required : List RequiredCheck) (changedFiles : List String) (runs : List CheckRun) (age timeout retriedAt : Int) : Status :=
  let found := (required.filter fun check => applicable glob check changedFiles).foldl (evaluateOne runs age timeout retriedAt) (false, {})
  { found.2 with state := if found.2.failing ≠ [] then .failure else if found.1 then .pending else .success }

variable {glob}

def CheckRun.Passed (run : CheckRun) : Prop := run.status = "completed" ∧ passed run.conclusion = true

instance (run : CheckRun) : Decidable run.Passed := inferInstanceAs (Decidable (_ ∧ _))

section Evaluate

variable {runs : List CheckRun} {age timeout retriedAt : Int}

theorem evaluateOne_clear {found : Bool × Status} {check : RequiredCheck} (hpending : (evaluateOne runs age timeout retriedAt found check).1 = false)
    (hfailing : (evaluateOne runs age timeout retriedAt found check).2.failing = []) :
    found.1 = false ∧ found.2.failing = [] ∧ ∃ run, newest runs check.name = some run ∧ run.Passed := by
  unfold evaluateOne at hpending hfailing
  split at hpending
  · rename_i hreported
    rw [hreported] at hfailing
    dsimp only at hfailing
    split at hpending
    · rename_i htimeout
      rw [if_pos htimeout] at hfailing
      simp at hfailing
    · cases hpending
  · rename_i run hreported
    rw [hreported] at hfailing
    dsimp only at hfailing
    split at hpending
    · cases hpending
    · rename_i hcompleted
      rw [if_neg hcompleted] at hfailing
      split at hpending
      · rename_i hpassed
        rw [if_pos hpassed] at hfailing
        exact ⟨hpending, hfailing, run, (Option.filter_eq_some_iff.mp hreported).1, not_not.mp hcompleted, hpassed⟩
      · rename_i hpassed
        rw [if_neg hpassed] at hfailing
        simp at hfailing

theorem foldl_evaluateOne_clear {checks : List RequiredCheck} {found : Bool × Status}
    (hpending : (checks.foldl (evaluateOne runs age timeout retriedAt) found).1 = false)
    (hfailing : (checks.foldl (evaluateOne runs age timeout retriedAt) found).2.failing = []) :
    found.1 = false ∧ found.2.failing = [] ∧ ∀ check ∈ checks, ∃ run, newest runs check.name = some run ∧ run.Passed := by
  induction checks generalizing found with
  | nil => exact ⟨hpending, hfailing, fun check hcheck => absurd hcheck List.not_mem_nil⟩
  | cons check checks ih =>
    obtain ⟨hpending', hfailing', hrest⟩ := ih hpending hfailing
    obtain ⟨hfirst, hfirst', hrun⟩ := evaluateOne_clear hpending' hfailing'
    refine ⟨hfirst, hfirst', fun other hother => ?_⟩
    rcases List.mem_cons.mp hother with rfl | hother
    · exact hrun
    · exact hrest other hother

theorem passed_of_evaluate_success {required : List RequiredCheck} {changedFiles : List String}
    (h : (evaluate glob required changedFiles runs age timeout retriedAt).state = .success) :
    ∀ check ∈ required, applicable glob check changedFiles = true → ∃ run, newest runs check.name = some run ∧ run.Passed := by
  intro check hcheck happlies
  unfold evaluate at h
  dsimp only at h
  split at h
  · cases h
  · rename_i hfailing
    split at h
    · cases h
    · rename_i hpending
      have hclear := foldl_evaluateOne_clear (by simpa using hpending) (not_not.mp hfailing)
      exact hclear.2.2 check (List.mem_filter.mpr ⟨hcheck, happlies⟩)

end Evaluate

theorem newer_cases (name : String) (current : Option CheckRun) (run : CheckRun) :
    (newer name current run = some run ∧ run.name = name ∧ ∀ other ∈ current, other.id < run.id) ∨
      (newer name current run = current ∧ (run.name = name → ∃ other ∈ current, run.id ≤ other.id)) := by
  unfold newer
  split
  · rename_i htaken
    simp only [Bool.and_eq_true, decide_eq_true_eq, Option.all_eq_true] at htaken
    exact Or.inl ⟨rfl, htaken⟩
  · rename_i hkept
    refine Or.inr ⟨rfl, fun hname => ?_⟩
    simp only [hname, decide_true, Bool.true_and, Option.all_eq_true, decide_eq_true_eq, not_forall, not_lt] at hkept
    obtain ⟨other, hother, hle⟩ := hkept
    exact ⟨other, hother, hle⟩

theorem foldl_newer {name : String} {run : CheckRun} {runs : List CheckRun} {start : Option CheckRun} (h : runs.foldl (newer name) start = some run) :
    (start = some run ∨ (run ∈ runs ∧ run.name = name)) ∧ (∀ other ∈ runs, other.name = name → other.id ≤ run.id) ∧
      ∀ other ∈ start, other.id ≤ run.id := by
  induction runs generalizing start with
  | nil =>
    have hstart : start = some run := h
    refine ⟨Or.inl hstart, fun other hother => absurd hother List.not_mem_nil, fun other hother => ?_⟩
    rw [hstart, Option.mem_def, Option.some.injEq] at hother
    rw [hother]
  | cons first rest ih =>
    obtain ⟨hfrom, hrest, hcurrent⟩ := ih h
    rcases newer_cases name start first with ⟨htaken, hname, hless⟩ | ⟨hkept, hmore⟩
    · rw [htaken] at hfrom hcurrent
      have hfirst := hcurrent first rfl
      refine ⟨Or.inr ?_, fun other hother hname' => ?_, fun other hother => (hless other hother).le.trans hfirst⟩
      · rcases hfrom with hsame | ⟨hmem, hname'⟩
        · rw [Option.some.injEq] at hsame
          exact ⟨hsame ▸ List.mem_cons_self, hsame ▸ hname⟩
        · exact ⟨List.mem_cons_of_mem _ hmem, hname'⟩
      · rcases List.mem_cons.mp hother with rfl | hother
        · exact hfirst
        · exact hrest other hother hname'
    · rw [hkept] at hfrom hcurrent
      refine ⟨hfrom.imp_right (And.imp_left (List.mem_cons_of_mem _)), fun other hother hname => ?_, hcurrent⟩
      rcases List.mem_cons.mp hother with rfl | hother
      · obtain ⟨current, hmem, hle⟩ := hmore hname
        exact hle.trans (hcurrent current hmem)
      · exact hrest other hother hname

theorem newest_spec {runs : List CheckRun} {name : String} {run : CheckRun} (h : newest runs name = some run) :
    run ∈ runs ∧ run.name = name ∧ ∀ other ∈ runs, other.name = name → other.id ≤ run.id := by
  obtain ⟨hfrom, hmax, -⟩ := foldl_newer h
  rcases hfrom with hnone | ⟨hmem, hname⟩
  · cases hnone
  · exact ⟨hmem, hname, hmax⟩

theorem texts_evaluateOne {runs : List CheckRun} {age timeout retriedAt : Int} (found : Bool × Status) (check : RequiredCheck) :
    (∀ name ∈ (evaluateOne runs age timeout retriedAt found check).2.failing, name ∈ found.2.failing ∨ check.name = name) ∧
      ∀ url ∈ (evaluateOne runs age timeout retriedAt found check).2.urls, url ∈ found.2.urls ∨ ∃ run ∈ runs, run.url = url := by
  have hname : ∀ name ∈ found.2.failing ++ [check.name], name ∈ found.2.failing ∨ check.name = name := by
    intro name hname
    rcases List.mem_append.mp hname with hold | hnew
    · exact Or.inl hold
    · exact Or.inr (List.mem_singleton.mp hnew).symm
  unfold evaluateOne
  split
  · split
    · exact ⟨hname, fun url => Or.inl⟩
    · exact ⟨fun name => Or.inl, fun url => Or.inl⟩
  · rename_i run hreported
    split
    · exact ⟨fun name => Or.inl, fun url => Or.inl⟩
    · split
      · exact ⟨fun name => Or.inl, fun url => Or.inl⟩
      · refine ⟨hname, fun url hurl => ?_⟩
        dsimp only at hurl
        split at hurl
        · rcases List.mem_append.mp hurl with hold | hnew
          · exact Or.inl hold
          · exact Or.inr ⟨run, (newest_spec (Option.filter_eq_some_iff.mp hreported).1).1, (List.mem_singleton.mp hnew).symm⟩
        · exact Or.inl hurl

theorem texts_evaluate (required : List RequiredCheck) (changedFiles : List String) (runs : List CheckRun) (age timeout retriedAt : Int) :
    (∀ name ∈ (evaluate glob required changedFiles runs age timeout retriedAt).failing, ∃ check ∈ required, check.name = name) ∧
      ∀ url ∈ (evaluate glob required changedFiles runs age timeout retriedAt).urls, ∃ run ∈ runs, run.url = url := by
  have hfold : ∀ (checks : List RequiredCheck) (found : Bool × Status), (∀ check ∈ checks, check ∈ required) →
      (∀ name ∈ found.2.failing, ∃ check ∈ required, check.name = name) → (∀ url ∈ found.2.urls, ∃ run ∈ runs, run.url = url) →
      (∀ name ∈ (checks.foldl (evaluateOne runs age timeout retriedAt) found).2.failing, ∃ check ∈ required, check.name = name) ∧
        ∀ url ∈ (checks.foldl (evaluateOne runs age timeout retriedAt) found).2.urls, ∃ run ∈ runs, run.url = url := by
    intro checks
    induction checks with
    | nil => exact fun _ _ hnames hurls => ⟨hnames, hurls⟩
    | cons check rest ih =>
      intro found hchecks hnames hurls
      obtain ⟨hname, hurl⟩ := @texts_evaluateOne runs age timeout retriedAt found check
      refine ih _ (fun other hother => hchecks other (List.mem_cons_of_mem check hother)) (fun name hmem => ?_) fun url hmem => ?_
      · rcases hname name hmem with hold | heq
        · exact hnames name hold
        · exact ⟨check, hchecks check List.mem_cons_self, heq⟩
      · rcases hurl url hmem with hold | hrun
        · exact hurls url hold
        · exact hrun
  exact hfold _ (false, {}) (fun check hcheck => (List.mem_filter.mp hcheck).1) (List.forall_mem_nil _) (List.forall_mem_nil _)

/-! ### The verdict -/

structure IsNewest (runs : List CheckRun) (name : String) (run : CheckRun) : Prop where
  mem : run ∈ runs
  called : run.name = name
  highest : ∀ other ∈ runs, other.name = name → other.id ≤ run.id

theorem foldl_newer_isSome {name : String} {runs : List CheckRun} {start : Option CheckRun}
    (h : start.isSome = true ∨ ∃ run ∈ runs, run.name = name) : (runs.foldl (newer name) start).isSome = true := by
  induction runs generalizing start with
  | nil =>
    rcases h with hstart | ⟨run, hrun, -⟩
    · exact hstart
    · exact absurd hrun List.not_mem_nil
  | cons first rest ih =>
    rw [List.foldl_cons]
    apply ih
    rcases newer_cases name start first with ⟨htaken, -, -⟩ | ⟨hkept, hmore⟩
    · rw [htaken]
      exact Or.inl rfl
    · rw [hkept]
      rcases h with hstart | ⟨run, hrun, hname⟩
      · exact Or.inl hstart
      · rcases List.mem_cons.mp hrun with rfl | hrun
        · obtain ⟨other, hother, -⟩ := hmore hname
          exact Or.inl (Option.isSome_of_mem hother)
        · exact Or.inr ⟨run, hrun, hname⟩

section Verdict

variable {runs runs' : List CheckRun} {age timeout retriedAt : Int}

theorem newest_eq_some_iff (hids : (runs.map (·.id)).Nodup) {name : String} {run : CheckRun} :
    newest runs name = some run ↔ IsNewest runs name run := by
  constructor
  · intro h
    obtain ⟨hmem, hname, hhighest⟩ := newest_spec h
    exact ⟨hmem, hname, hhighest⟩
  · intro h
    obtain ⟨found, hfound : newest runs name = some found⟩ := Option.isSome_iff_exists.mp (foldl_newer_isSome (Or.inr ⟨run, h.mem, h.called⟩))
    obtain ⟨hmem, hname, hhighest⟩ := newest_spec hfound
    have hid : found.id = run.id := le_antisymm (h.highest found hmem hname) (hhighest run h.mem h.called)
    rw [← List.inj_on_of_nodup_map hids hmem h.mem hid]
    exact hfound

theorem newest_perm (hids : (runs.map (·.id)).Nodup) (hperm : runs'.Perm runs) (name : String) : newest runs' name = newest runs name := by
  have hids' : (runs'.map (·.id)).Nodup := (hperm.map _).nodup_iff.mpr hids
  apply Option.ext
  intro run
  rw [newest_eq_some_iff hids', newest_eq_some_iff hids]
  constructor
  · exact fun h => ⟨hperm.mem_iff.mp h.mem, h.called, fun other hother => h.highest other (hperm.mem_iff.mpr hother)⟩
  · exact fun h => ⟨hperm.mem_iff.mpr h.mem, h.called, fun other hother => h.highest other (hperm.mem_iff.mp hother)⟩

theorem evaluate_perm (hids : (runs.map (·.id)).Nodup) (hperm : runs'.Perm runs) (required : List RequiredCheck) (changedFiles : List String) :
    evaluate glob required changedFiles runs' age timeout retriedAt = evaluate glob required changedFiles runs age timeout retriedAt := by
  have hround : evaluateOne runs' age timeout retriedAt = evaluateOne runs age timeout retriedAt := by
    funext found check
    unfold evaluateOne reported
    rw [newest_perm hids hperm]
  unfold evaluate
  rw [hround]

variable {check : RequiredCheck}

theorem evaluateOne_of_passed {run : CheckRun} (hnewest : newest runs check.name = some run) (hpassed : run.Passed)
    (found : Bool × Status) : evaluateOne runs age timeout retriedAt found check = found := by
  have hreported : reported runs retriedAt check = some run := by
    rw [reported, hnewest, Option.filter_some, hpassed.2]
    simp
  unfold evaluateOne
  rw [hreported]
  dsimp only
  rw [if_neg (not_not.mpr hpassed.1), if_pos hpassed.2]

theorem evaluate_success_of_passed {required : List RequiredCheck} {changedFiles : List String}
    (h : ∀ check ∈ required, applicable glob check changedFiles = true → ∃ run, newest runs check.name = some run ∧ run.Passed) :
    (evaluate glob required changedFiles runs age timeout retriedAt).state = .success := by
  have hclear : ∀ checks : List RequiredCheck, (∀ check ∈ checks, ∃ run, newest runs check.name = some run ∧ run.Passed) → ∀ found,
      checks.foldl (evaluateOne runs age timeout retriedAt) found = found := by
    intro checks
    induction checks with
    | nil => exact fun _ _ => rfl
    | cons check checks ih =>
      intro hpassed found
      obtain ⟨run, hnewest, hrun⟩ := hpassed check List.mem_cons_self
      rw [List.foldl_cons, evaluateOne_of_passed hnewest hrun]
      exact ih (fun other hother => hpassed other (List.mem_cons_of_mem check hother)) found
  unfold evaluate
  dsimp only
  rw [hclear]
  · rfl
  · intro check hcheck
    obtain ⟨hmem, happlies⟩ := List.mem_filter.mp hcheck
    exact h check hmem happlies

theorem failing_subset_evaluateOne (found : Bool × Status) (check : RequiredCheck) :
    found.2.failing ⊆ (evaluateOne runs age timeout retriedAt found check).2.failing := by
  unfold evaluateOne
  split
  · split
    · exact List.subset_append_left _ _
    · exact List.Subset.refl _
  · split
    · exact List.Subset.refl _
    · split
      · exact List.Subset.refl _
      · exact List.subset_append_left _ _

theorem failing_subset_foldl (checks : List RequiredCheck) (found : Bool × Status) :
    found.2.failing ⊆ (checks.foldl (evaluateOne runs age timeout retriedAt) found).2.failing := by
  induction checks generalizing found with
  | nil => exact List.Subset.refl _
  | cons check checks ih => exact List.Subset.trans (failing_subset_evaluateOne found check) (ih _)

theorem mem_failing_of_evaluateOne (h : ∀ found, check.name ∈ (evaluateOne runs age timeout retriedAt found check).2.failing)
    {checks : List RequiredCheck} (hcheck : check ∈ checks) (found : Bool × Status) :
    check.name ∈ (checks.foldl (evaluateOne runs age timeout retriedAt) found).2.failing := by
  induction checks generalizing found with
  | nil => exact absurd hcheck List.not_mem_nil
  | cons other checks ih =>
    rw [List.foldl_cons]
    rcases List.mem_cons.mp hcheck with rfl | hcheck
    · exact failing_subset_foldl checks _ (h found)
    · exact ih hcheck _

theorem evaluate_failure_of_mem {required : List RequiredCheck} {changedFiles : List String} (hcheck : check ∈ required)
    (happlies : applicable glob check changedFiles = true)
    (h : ∀ found, check.name ∈ (evaluateOne runs age timeout retriedAt found check).2.failing) :
    (evaluate glob required changedFiles runs age timeout retriedAt).state = .failure := by
  have happlies' : check ∈ required.filter fun check => applicable glob check changedFiles := List.mem_filter.mpr ⟨hcheck, happlies⟩
  have hmem := mem_failing_of_evaluateOne h happlies' (false, {})
  unfold evaluate
  dsimp only
  rw [if_pos (List.ne_nil_of_mem hmem)]

theorem mem_failing_of_failed {run : CheckRun} (hnewest : newest runs check.name = some run) (hcompleted : run.status = "completed")
    (hfailed : passed run.conclusion = false) (hretry : retriedAt = 0 ∨ retriedAt ≤ run.startedAt) (found : Bool × Status) :
    check.name ∈ (evaluateOne runs age timeout retriedAt found check).2.failing := by
  have hreported : reported runs retriedAt check = some run := by
    rw [reported, hnewest, Option.filter_some, if_pos]
    rcases hretry with hzero | hafter
    · simp [hzero]
    · simp [hafter]
  unfold evaluateOne
  rw [hreported]
  dsimp only
  rw [if_neg (not_not.mpr hcompleted), hfailed, if_neg Bool.false_ne_true]
  exact List.mem_append_right _ List.mem_cons_self

end Verdict

/-- Checks succeed exactly if the newest run of every one that applies has passed; the order of runs does not matter; a failure not older than the retry wins over what is pending. -/
theorem required_checks_verdict (required : List RequiredCheck) (changedFiles : List String) {runs : List CheckRun} (hids : (runs.map (·.id)).Nodup)
    (age timeout retriedAt : Int) :
    ((evaluate glob required changedFiles runs age timeout retriedAt).state = .success ↔
      ∀ check ∈ required, applicable glob check changedFiles = true → ∃ run, IsNewest runs check.name run ∧ run.Passed) ∧
    (∀ runs' : List CheckRun, runs'.Perm runs →
      evaluate glob required changedFiles runs' age timeout retriedAt = evaluate glob required changedFiles runs age timeout retriedAt) ∧
    ∀ check ∈ required, applicable glob check changedFiles = true → ∀ run, IsNewest runs check.name run → run.status = "completed" →
      passed run.conclusion = false → retriedAt = 0 ∨ retriedAt ≤ run.startedAt →
      (evaluate glob required changedFiles runs age timeout retriedAt).state = .failure := by
  refine ⟨⟨fun h check hcheck happlies => ?_, fun h => ?_⟩, fun runs' hperm => evaluate_perm hids hperm required changedFiles, ?_⟩
  · obtain ⟨run, hnewest, hpassed⟩ := passed_of_evaluate_success h check hcheck happlies
    exact ⟨run, (newest_eq_some_iff hids).mp hnewest, hpassed⟩
  · apply evaluate_success_of_passed
    intro check hcheck happlies
    obtain ⟨run, hnewest, hpassed⟩ := h check hcheck happlies
    exact ⟨run, (newest_eq_some_iff hids).mpr hnewest, hpassed⟩
  · intro check hcheck happlies run hnewest hcompleted hfailed hretry
    exact evaluate_failure_of_mem hcheck happlies (mem_failing_of_failed ((newest_eq_some_iff hids).mpr hnewest) hcompleted hfailed hretry)

namespace Demo

def runs : List CheckRun := [
  { id := 3, name := "unit", status := "in_progress", conclusion := "", url := "", suiteID := 1, startedAt := 9 },
  { id := 1, name := "unit", status := "completed", conclusion := "failure", url := "", suiteID := 1, startedAt := 5 },
  { id := 2, name := "lint", status := "completed", conclusion := "neutral", url := "", suiteID := 1, startedAt := 5 }]

end Demo

theorem required_checks_verdict_of_rerun : (Demo.runs.map (·.id)).Nodup ∧
    ((evaluate (fun _ _ => false) [⟨"lint", []⟩] [] Demo.runs 1 2 0).state = .success ↔
      ∀ check ∈ [RequiredCheck.mk "lint" []], applicable (fun _ _ => false) check [] = true → ∃ run, IsNewest Demo.runs check.name run ∧ run.Passed) :=
  ⟨by decide, (required_checks_verdict [⟨"lint", []⟩] [] (by decide) 1 2 0).1⟩

end MergeQueue

end RunnerYard
