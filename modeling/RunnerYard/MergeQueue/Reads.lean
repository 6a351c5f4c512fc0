import RunnerYard.Interaction.Execute
import RunnerYard.MergeQueue.Tick

/-!
# What a snapshot is put together from

The reads of `LoadSnapshot` are answered one by one, and others may change the repository between them. Here nothing is assumed of the answers but that `holds` admits them; a snapshot then says what single answers say.
-/

namespace RunnerYard

namespace MergeQueue

open Interaction

variable {holds : Event Call.Ans → Prop}

theorem gives_call_iff {op : Call} {v : op.Val} : Try.Gives holds (call op) v ↔ holds ⟨op, .ok v⟩ := by
  constructor
  · rintro ⟨trace, htrace, hall⟩
    have heq : trace = [⟨op, .ok v⟩] := Prog.yields_perform_iff.mp htrace
    exact hall _ (heq ▸ List.mem_singleton_self _)
  · intro h
    exact ⟨[⟨op, .ok v⟩], Prog.yields_perform_iff.mpr rfl, by simpa using h⟩

/-- The calls that read, or leave no trace in what is modeled. -/
def Call.isRead : Call → Bool
  | .upsertStatusComment _ _ _ | .removeLabel _ _ | .rebase _ _ _ _ | .pushBranches _ | .fastForward _ _ | .planned _ => false
  | _ => true

namespace Queue

variable {q : Queue} {now : Int} {targetSHA : String} {queued : List QueuedPR} {stack : Stack}

/-! ### Only reads -/

def ReadsOnly {α : Type} (p : Tick α) : Prop := Prog.All (fun op => op.isRead = true) p.run

theorem readsOnly_pure {α : Type} (a : α) : ReadsOnly (pure a) := Prog.all_pure _

theorem ReadsOnly.bind {α β : Type} {p : Tick α} {f : α → Tick β} (h : ReadsOnly p) (hf : ∀ a, ReadsOnly (f a)) : ReadsOnly (p >>= f) := by
  refine Prog.All.bind h fun r => ?_
  cases r with
  | ok a => exact hf a
  | error failure => exact Prog.all_pure _

theorem readsOnly_call {op : Call} (h : op.isRead = true) : ReadsOnly (call op) := ⟨h, fun _ => trivial⟩

theorem readsOnly_foldlM {β σ : Type} {f : σ → β → Tick σ} (h : ∀ s x, ReadsOnly (f s x)) (l : List β) (s : σ) : ReadsOnly (l.foldlM f s) := by
  induction l generalizing s with
  | nil => exact readsOnly_pure s
  | cons x rest ih =>
    rw [List.foldlM_cons]
    exact (h s x).bind ih

theorem readsOnly_loadPR (loading : Loading) (pr : PR) : ReadsOnly (q.loadPR loading pr) := by
  have hpermission : ReadsOnly (labelerCanWrite loading.canWrite pr.labeledBy) := by
    unfold labelerCanWrite
    split
    · exact readsOnly_pure _
    · split
      · exact readsOnly_pure _
      · exact (readsOnly_call rfl).bind fun _ => readsOnly_pure _
  refine hpermission.bind fun permission => ?_
  split
  · exact readsOnly_pure _
  · exact (readsOnly_call rfl).bind fun _ => readsOnly_pure _

theorem readsOnly_loadChecks (now : Int) (stack : Stack) : ReadsOnly (q.loadChecks now stack) := by
  have hfiles : ReadsOnly (q.changedFiles stack) := by
    unfold changedFiles
    split
    · exact readsOnly_foldlM (fun _ _ => (readsOnly_call rfl).bind fun _ => readsOnly_pure _) _ _
    · exact readsOnly_pure _
  refine hfiles.bind fun files => (readsOnly_call rfl).bind fun runs => ?_
  dsimp only
  generalize (if 0 < stack.retry then stack.atTime else 0) = retriedAt
  split
  · split
    · exact readsOnly_pure _
    · exact (readsOnly_call rfl).bind fun _ => readsOnly_pure _
  · exact (readsOnly_foldlM (fun _ _ => (readsOnly_call rfl).bind fun _ => readsOnly_pure _) _ _).bind fun _ => readsOnly_pure _
  · exact readsOnly_pure _

theorem readsOnly_loadInFlight (stack : Stack) : ReadsOnly (q.loadInFlight now targetSHA queued stack) := by
  unfold loadInFlight
  split
  · split
    · exact readsOnly_pure _
    · exact (readsOnly_call rfl).bind fun _ => readsOnly_pure _
  · split
    · exact readsOnly_pure _
    · exact readsOnly_loadChecks now stack

theorem readsOnly_loadSnapshot (now : Int) : ReadsOnly (q.loadSnapshot now) := by
  refine (readsOnly_call rfl).bind fun targetSHA => ReadsOnly.bind (p := q.queuedPRs) ?_ fun prs => ?_
  · refine (readsOnly_call rfl).bind fun numbers => readsOnly_foldlM (fun _ number => ?_) _ _
    exact (readsOnly_call rfl).bind fun _ => (readsOnly_call rfl).bind fun _ => readsOnly_pure _
  · refine (readsOnly_foldlM readsOnly_loadPR _ _).bind fun loading => ?_
    exact (readsOnly_foldlM (fun _ stack => (readsOnly_loadInFlight stack).bind fun _ => readsOnly_pure _) _ _).bind fun _ => readsOnly_pure _

/-! ### The pull requests -/

structure ReadAs (q : Queue) (holds : Event Call.Ans → Prop) (number : Int) (pr : PR) : Prop where
  pull : ∃ answer, holds ⟨.pullRequest number, .ok answer⟩ ∧ pr = { answer with labeledAt := pr.labeledAt, labeledBy := pr.labeledBy }
  labeled : holds ⟨.lastLabeled number q.config.label, .ok (pr.labeledAt, pr.labeledBy)⟩

theorem readAs_of_queuedPRs {prs : List PR} (h : Try.Gives holds q.queuedPRs prs) :
    ∃ numbers, holds ⟨.issues q.config.label, .ok numbers⟩ ∧ List.Forall₂ (q.ReadAs holds) numbers prs := by
  obtain ⟨numbers, hnumbers, hrest⟩ := Try.gives_bind_iff.mp h
  refine ⟨numbers, gives_call_iff.mp hnumbers, ?_⟩
  have hread : ∃ before, numbers = before ++ [] ∧ List.Forall₂ (q.ReadAs holds) before prs := by
    refine hrest.foldlM (fun rest prs => ∃ before, numbers = before ++ rest ∧ List.Forall₂ (q.ReadAs holds) before prs) ?_ ⟨[], rfl, .nil⟩
    rintro number rest prs prs' ⟨before, hbefore, hprs⟩ hround
    obtain ⟨pr, hpr, hround⟩ := Try.gives_bind_iff.mp hround
    obtain ⟨labeled, hlabeled, hpure⟩ := Try.gives_bind_iff.mp hround
    rw [Try.gives_pure_iff.mp hpure]
    refine ⟨before ++ [number], by rw [hbefore, List.append_assoc, List.singleton_append], ?_⟩
    exact List.rel_append hprs (.cons ⟨⟨pr, gives_call_iff.mp hpr, rfl⟩, gives_call_iff.mp hlabeled⟩ .nil)
  obtain ⟨before, hbefore, hprs⟩ := hread
  rwa [hbefore, List.append_nil]

structure CommentedAs (q : Queue) (holds : Event Call.Ans → Prop) (entry : QueuedPR × Comment) : Prop where
  comment : holds ⟨.statusComment entry.1.number q.botLogin, .ok entry.2⟩
  owns : entry.1.owns = entry.2.reading.owns
  landed : entry.1.landed = entry.2.reading.landed.any (·.head = entry.1.headSHA)

def marker (entry : QueuedPR × Comment) : Option Stack := entry.2.reading.stack.filter (·.top.number = entry.1.number)

theorem commentedAs_of_loadPRs (hbot : q.botLogin ≠ "") {prs : List PR} {loading : Loading} (h : Try.Gives holds (prs.foldlM q.loadPR {}) loading) :
    ∃ entries : List (QueuedPR × Comment), loading.queued = entries.map Prod.fst ∧ loading.marked = entries.filterMap marker ∧
      (∀ entry ∈ entries, q.CommentedAs holds entry) ∧ entries.map (·.1.toPR) = prs := by
  have hread : ∃ entries : List (QueuedPR × Comment), loading.queued = entries.map Prod.fst ∧ loading.marked = entries.filterMap marker ∧
      (∀ entry ∈ entries, q.CommentedAs holds entry) ∧ entries.map (·.1.toPR) ++ [] = prs := by
    refine h.foldlM (fun rest loading => ∃ entries : List (QueuedPR × Comment), loading.queued = entries.map Prod.fst ∧ loading.marked = entries.filterMap marker ∧
      (∀ entry ∈ entries, q.CommentedAs holds entry) ∧ entries.map (·.1.toPR) ++ rest = prs) ?_ ⟨[], rfl, rfl, List.forall_mem_nil _, rfl⟩
    rintro pr rest loading loading' ⟨entries, hqueued, hmarked, hentries, hprs⟩ hround
    obtain ⟨permission, -, hround⟩ := Try.gives_bind_iff.mp hround
    rw [if_neg hbot] at hround
    obtain ⟨comment, hcomment, hpure⟩ := Try.gives_bind_iff.mp hround
    rw [Try.gives_pure_iff.mp hpure]
    refine ⟨entries ++ [({ pr with
      labelerCanWrite := permission.1
      owns := comment.reading.owns
      landed := comment.reading.landed.any (·.head = pr.headSHA) }, comment)], ?_, ?_, ?_, ?_⟩
    · rw [List.map_append, hqueued]
      rfl
    · rw [List.filterMap_append, hmarked]
      cases hmarker : comment.reading.stack.filter (·.top.number = pr.number) with
      | none => simp [marker, hmarker]
      | some stack => simp [marker, hmarker]
    · exact List.forall_mem_append.mpr ⟨hentries, List.forall_mem_singleton.mpr ⟨gives_call_iff.mp hcomment, rfl, rfl⟩⟩
    · rw [List.map_append, List.append_assoc, List.map_singleton, List.singleton_append]
      exact hprs
  obtain ⟨entries, hqueued, hmarked, hentries, hprs⟩ := hread
  exact ⟨entries, hqueued, hmarked, hentries, by rwa [List.append_nil] at hprs⟩

/-! ### Stacks in flight -/

theorem changed_of_changedFiles {files : List String} (h : Try.Gives holds (q.changedFiles stack) files) (hneeds : needsFiles q.config.requiredChecks = true)
    (hnodup : stack.numbers.Nodup) : ∃ changed : Int → List String, files = stack.numbers.flatMap changed ∧
      ∀ number ∈ stack.numbers, holds ⟨.changedFiles number, .ok (changed number)⟩ := by
  unfold changedFiles at h
  rw [if_pos hneeds] at h
  have hread : ∃ before, ∃ changed : Int → List String, stack.numbers = before ++ [] ∧ files = before.flatMap changed ∧
      ∀ number ∈ before, holds ⟨.changedFiles number, .ok (changed number)⟩ := by
    refine h.foldlM (fun rest files => ∃ before, ∃ changed : Int → List String, stack.numbers = before ++ rest ∧ files = before.flatMap changed ∧
      ∀ number ∈ before, holds ⟨.changedFiles number, .ok (changed number)⟩) ?_ ⟨[], fun _ => [], rfl, rfl, List.forall_mem_nil _⟩
    rintro number rest files files' ⟨before, changed, hbefore, hfiles, hread⟩ hround
    obtain ⟨found, hfound, hpure⟩ := Try.gives_bind_iff.mp hround
    have hnew : number ∉ before := by
      rw [hbefore] at hnodup
      exact fun hmem => (List.nodup_append.mp hnodup).2.2 number hmem number List.mem_cons_self rfl
    have hsame : ∀ other ∈ before, (if other = number then found else changed other) = changed other := fun other hother =>
      if_neg fun heq : other = number => hnew (heq ▸ hother)
    refine ⟨before ++ [number], fun other => if other = number then found else changed other,
      by rw [hbefore, List.append_assoc, List.singleton_append], ?_, ?_⟩
    · rw [Try.gives_pure_iff.mp hpure, List.flatMap_append, hfiles]
      congr 1
      · exact List.flatMap_congr fun other hother => (hsame other hother).symm
      · simp
    · refine List.forall_mem_append.mpr ⟨fun other hother => ?_, List.forall_mem_singleton.mpr ?_⟩
      · dsimp only
        rw [hsame other hother]
        exact hread other hother
      · dsimp only
        rw [if_pos rfl]
        exact gives_call_iff.mp hfound
  obtain ⟨before, changed, hbefore, hfiles, hchanged⟩ := hread
  rw [List.append_nil] at hbefore
  exact ⟨changed, hbefore ▸ hfiles, hbefore ▸ hchanged⟩

structure CheckedAs (q : Queue) (holds : Event Call.Ans → Prop) (now : Int) (inFlight : InFlight) (files : List String) (runs : List CheckRun) : Prop where
  changed : Try.Gives holds (q.changedFiles inFlight.stack) files
  ran : holds ⟨.checkRuns inFlight.stack.top.sha, .ok runs⟩
  checks : inFlight.checks = evaluate q.glob q.config.requiredChecks files runs (now - inFlight.stack.atTime) q.config.checkTimeout
    (if 0 < inFlight.stack.retry then inFlight.stack.atTime else 0)

theorem checkedAs_of_loadChecks {inFlight : InFlight} (h : Try.Gives holds (q.loadChecks now stack) inFlight) :
    inFlight.stack = stack ∧ inFlight.landed = false ∧ ∃ files runs, q.CheckedAs holds now inFlight files runs := by
  unfold loadChecks at h
  obtain ⟨files, hfiles, h⟩ := Try.gives_bind_iff.mp h
  obtain ⟨runs, hruns, h⟩ := Try.gives_bind_iff.mp h
  dsimp only at h
  have hread : inFlight.stack = stack ∧ inFlight.landed = false ∧ inFlight.checks = evaluate q.glob q.config.requiredChecks files runs (now - stack.atTime)
      q.config.checkTimeout (if 0 < stack.retry then stack.atTime else 0) := by
    generalize (if 0 < stack.retry then stack.atTime else 0) = retriedAt at h ⊢
    split at h
    · split at h
      · rw [Try.gives_pure_iff.mp h]
        exact ⟨rfl, rfl, rfl⟩
      · obtain ⟨workflows, -, hpure⟩ := Try.gives_bind_iff.mp h
        rw [Try.gives_pure_iff.mp hpure]
        exact ⟨rfl, rfl, rfl⟩
    · obtain ⟨ids, -, hpure⟩ := Try.gives_bind_iff.mp h
      rw [Try.gives_pure_iff.mp hpure]
      exact ⟨rfl, rfl, rfl⟩
    · rw [Try.gives_pure_iff.mp h]
      exact ⟨rfl, rfl, rfl⟩
  obtain ⟨rfl, hlanded, hchecks⟩ := hread
  exact ⟨rfl, hlanded, files, runs, hfiles, gives_call_iff.mp hruns, hchecks⟩

/-- How a stack in flight was read. -/
inductive FlownAs (q : Queue) (holds : Event Call.Ans → Prop) (now : Int) (targetSHA : String) (queued : List QueuedPR) (inFlight : InFlight) : Prop
  | isTarget (hbase : inFlight.stack.base ≠ targetSHA) (htop : inFlight.stack.top.sha = targetSHA) (hlanded : inFlight.landed = true)
      (hchecks : inFlight.checks = {})
  | compared (hbase : inFlight.stack.base ≠ targetSHA) (hread : holds ⟨.compare inFlight.stack.top.sha targetSHA, .ok inFlight.landed⟩)
      (hchecks : inFlight.checks = {})
  | stale (hbase : inFlight.stack.base = targetSHA) (hstale : staleReason inFlight.stack targetSHA queued ≠ none) (hlanded : inFlight.landed = false)
      (hchecks : inFlight.checks = {})
  | checked (hbase : inFlight.stack.base = targetSHA) (hfresh : staleReason inFlight.stack targetSHA queued = none) (hlanded : inFlight.landed = false)
      (files : List String) (runs : List CheckRun) (hread : q.CheckedAs holds now inFlight files runs)

theorem flownAs_of_loadInFlight {inFlight : InFlight} (h : Try.Gives holds (q.loadInFlight now targetSHA queued stack) inFlight) :
    inFlight.stack = stack ∧ q.FlownAs holds now targetSHA queued inFlight := by
  unfold loadInFlight at h
  split at h
  · rename_i hbase
    split at h
    · rename_i htop
      rw [Try.gives_pure_iff.mp h]
      exact ⟨rfl, .isTarget hbase htop rfl rfl⟩
    · obtain ⟨landed, hlanded, hpure⟩ := Try.gives_bind_iff.mp h
      rw [Try.gives_pure_iff.mp hpure]
      exact ⟨rfl, .compared hbase (gives_call_iff.mp hlanded) rfl⟩
  · rename_i hbase
    rw [not_not] at hbase
    split at h
    · rename_i hstale
      rw [Try.gives_pure_iff.mp h]
      exact ⟨rfl, .stale hbase (Option.isSome_iff_ne_none.mp hstale) rfl rfl⟩
    · rename_i hfresh
      obtain ⟨rfl, hlanded, files, runs, hread⟩ := checkedAs_of_loadChecks h
      exact ⟨rfl, .checked hbase (by simpa using hfresh) hlanded files runs hread⟩

theorem flownAs_of_forall₂ {marked : List Stack} {inFlight : List InFlight}
    (h : List.Forall₂ (fun stack next => Try.Gives holds (q.loadInFlight now targetSHA queued stack) next) marked inFlight) :
    inFlight.map (·.stack) = marked ∧ ∀ next ∈ inFlight, q.FlownAs holds now targetSHA queued next := by
  induction h with
  | nil => exact ⟨rfl, List.forall_mem_nil _⟩
  | cons hfirst _ ih =>
    obtain ⟨hstack, hflown⟩ := flownAs_of_loadInFlight hfirst
    exact ⟨by rw [List.map_cons, ih.1, hstack], List.forall_mem_cons.mpr ⟨hflown, ih.2⟩⟩

/-! ### The snapshot -/

theorem gives_loadQueue_iff {prs : List PR} {s : Snapshot} : Try.Gives holds (q.loadQueue now targetSHA prs) s ↔
    ∃ loading inFlight, Try.Gives holds ((sortFIFO prs).foldlM q.loadPR {}) loading ∧
      List.Forall₂ (fun stack next => Try.Gives holds (q.loadInFlight now targetSHA loading.queued stack) next) loading.marked inFlight ∧
      s = { now, targetSHA, queued := loading.queued, inFlight } := by
  unfold loadQueue
  simp only [Try.gives_bind_iff, Try.gives_gather_iff, Try.gives_pure_iff, List.nil_append]
  constructor
  · rintro ⟨loading, hloading, inFlight, ⟨gathered, hgathered, hall⟩, rfl⟩
    exact ⟨loading, inFlight, hloading, hgathered ▸ hall, rfl⟩
  · rintro ⟨loading, inFlight, hloading, hall, rfl⟩
    exact ⟨loading, hloading, inFlight, ⟨inFlight, rfl, hall⟩, rfl⟩

structure LoadedAs (q : Queue) (holds : Event Call.Ans → Prop) (now : Int) (snapshot : Snapshot) (numbers : List Int) (entries : List (QueuedPR × Comment)) :
    Prop where
  time : snapshot.now = now
  target : holds ⟨.resolveBranch q.config.target, .ok snapshot.targetSHA⟩
  listed : holds ⟨.issues q.config.label, .ok numbers⟩
  read : ∃ prs, List.Forall₂ (q.ReadAs holds) numbers prs ∧ prs.Perm (snapshot.queued.map QueuedPR.toPR)
  queued : snapshot.queued = entries.map Prod.fst
  commented : ∀ entry ∈ entries, q.CommentedAs holds entry
  marked : snapshot.inFlight.map (·.stack) = entries.filterMap marker
  flown : ∀ inFlight ∈ snapshot.inFlight, q.FlownAs holds now snapshot.targetSHA snapshot.queued inFlight

theorem loadedAs_of_loadSnapshot (hbot : q.botLogin ≠ "") {snapshot : Snapshot} (h : Try.Gives holds (q.loadSnapshot now) snapshot) :
    ∃ numbers entries, q.LoadedAs holds now snapshot numbers entries := by
  obtain ⟨targetSHA, htarget, h⟩ := Try.gives_bind_iff.mp h
  obtain ⟨prs, hprs, h⟩ := Try.gives_bind_iff.mp h
  obtain ⟨loading, inFlight, hloading, hall, rfl⟩ := gives_loadQueue_iff.mp h
  obtain ⟨numbers, hnumbers, hread⟩ := readAs_of_queuedPRs hprs
  obtain ⟨entries, hqueued, hmarked, hentries, hsorted⟩ := commentedAs_of_loadPRs hbot hloading
  have hstacks := flownAs_of_forall₂ hall
  refine ⟨numbers, entries, rfl, gives_call_iff.mp htarget, hnumbers, ⟨prs, hread, ?_⟩, hqueued, hentries, hstacks.1.trans hmarked, hstacks.2⟩
  dsimp only
  rw [hqueued, List.map_map]
  exact (List.perm_insertionSort earlier prs).symm.trans (hsorted ▸ List.Perm.refl _)

end Queue

end MergeQueue

end RunnerYard
