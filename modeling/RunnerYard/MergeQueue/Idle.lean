import RunnerYard.MergeQueue.GitHub
import RunnerYard.MergeQueue.Order
import RunnerYard.MergeQueue.Reads
import RunnerYard.MergeQueue.Timeouts

/-!
# Idle ticks

A tick that does nothing but write status comments and cancel runs changes nothing that the next tick reads. A comment that it overwrites belongs to a pull request in no stack that has not landed: it holds no stack that counts and no landed head that counts, and its own records are written again.
-/

namespace RunnerYard

namespace MergeQueue

open Interaction Regex

/-! ### What is read in a comment -/

theorem read_statusBody {text : String} (htext : Unmarked text) {owns : List Own} (howns : ∀ own ∈ owns, own.Valid) :
    read (statusBody text (ownMarkers owns)) = { owns := owns.take maxOwns } := by
  have hmarkers : ∀ marker ∈ (owns.take maxOwns).map Marker.own, marker.Valid := by
    intro marker hmarker
    obtain ⟨own, hown, rfl⟩ := List.mem_map.mp hmarker
    exact howns own (List.mem_of_mem_take hown)
  have htexts : ownMarkers owns = ((owns.take maxOwns).map Marker.own).map Marker.text := by
    rw [ownMarkers, List.map_map]
    rfl
  have hown : ∀ kept : List Own, (kept.map Marker.own).filterMap Marker.own? = kept := by simp [List.filterMap_map, Function.comp_def, Marker.own?]
  have hother : ∀ kept : List Own, (kept.map Marker.own).filterMap Marker.stack? = [] ∧ (kept.map Marker.own).filterMap Marker.landed? = [] := by
    simp [List.filterMap_map, Function.comp_def, Marker.stack?, Marker.landed?]
  rw [read, htexts, parseStack_statusBody htext hmarkers, parseOwns_statusBody htext hmarkers, parseLanded_statusBody htext hmarkers, hown,
    (hother _).1, (hother _).2, List.take_take, Nat.min_self]
  rfl

theorem parseOwns_spec (body : String) : (parseOwns body).length ≤ maxOwns ∧ ∀ own ∈ parseOwns body, own.Valid := by
  constructor
  · refine le_trans (List.length_filterMap_le _ _) ?_
    rw [findAll, List.length_map]
    exact length_searchAll_le maxOwns _
  · intro own hown
    obtain ⟨texts, htexts, heq⟩ := List.mem_filterMap.mp hown
    obtain ⟨captures, hcaptures, rfl⟩ := List.mem_map.mp htexts
    obtain ⟨w, _, _, _, _, hlit, ⟨_, _, _, _, ⟨inner, hhead, rfl⟩, ⟨_, _, _, _, hlit', ⟨_, _, _, _, ⟨inner', hupstream, rfl⟩, hlit'', rfl, rfl⟩, rfl, rfl⟩, rfl, rfl⟩,
      rfl, rfl⟩ := spells_of_mem_searchAll hcaptures
    obtain ⟨hlength, hdigits, rfl⟩ := hhead.times
    obtain ⟨hlength', hdigits', rfl⟩ := hupstream.times
    obtain ⟨-, rfl⟩ := hlit.literal
    obtain ⟨-, rfl⟩ := hlit'.literal
    obtain ⟨-, rfl⟩ := hlit''.literal
    simp only [List.nil_append, List.append_nil, List.singleton_append, List.map_cons, List.map_nil, Option.some.injEq] at heq
    rw [← heq]
    unfold Own.Valid IsSHA
    rw [String.toList_ofList, String.toList_ofList]
    exact ⟨⟨hlength, hdigits⟩, hlength', hdigits'⟩

theorem members_of_parseStack {body : String} {stack : Stack} (h : parseStack body = some stack) : stack.members ≠ [] := by
  have hparsed : ∀ {seen entries members}, entries ≠ [] → parseMembers seen entries = some members → members ≠ [] := by
    intro seen entries members hne hparse
    obtain ⟨entry, rest, rfl⟩ := List.exists_cons_of_ne_nil hne
    obtain ⟨member, -, hrest⟩ := Option.bind_eq_some_iff.mp hparse
    obtain ⟨members', -, rfl⟩ := Option.map_eq_some_iff.mp hrest
    exact List.cons_ne_nil member members'
  unfold parseStack at h
  split at h
  · obtain ⟨members, hmembers, hrest⟩ := Option.bind_eq_some_iff.mp h
    have hne := hparsed (by rw [Text.split, ne_eq, List.map_eq_nil_iff]; exact List.splitOn_ne_nil _ _) hmembers
    split at hrest
    · cases hrest
    · rw [← Option.some.inj hrest]
      exact hne
  · cases h

/-- The limit that GitHub sets to the name of a label. -/
def maxLabelLength : Nat := 50

/-- Branch names hold no space, says `git check-ref-format`. -/
def IsRefName (name : String) : Prop := ' ' ∉ name.toList

theorem unmarked_of_isRefName {name : String} (h : IsRefName name) : Unmarked name :=
  unmarked_of_plain fun hoccurs => h (hoccurs.subset (by decide))

theorem unmarked_ineligibleReason {pr : QueuedPR} {config : Config} {reason : String} (hbase : IsRefName pr.baseRef) (htarget : IsRefName config.target)
    (hlabel : Unmarked config.label) (h : ineligibleReason pr config = some reason) : Unmarked reason := by
  have htick : ∀ r ∈ patterns, r.avoids '`' = true := by decide
  unfold ineligibleReason at h
  split at h
  · cases h
    exact unmarked_of_length_lt (by decide)
  · split at h
    · cases h
      exact unmarked_of_length_lt (by decide)
    · split at h
      · cases h
        simp only [String.append_assoc]
        refine unmarked_append (by decide) (unmarked_append_head (c := '`') (unmarked_of_isRefName hbase) ?_ htick (head?_append_literal (by decide)))
        refine unmarked_append (by decide) (unmarked_append_head (c := '`') (unmarked_of_isRefName htarget) ?_ htick (by decide))
        exact unmarked_of_length_lt (by decide)
      · split at h
        · cases h
          rw [String.append_assoc]
          refine unmarked_append (by decide) (unmarked_append_head (c := '`') hlabel ?_ htick (by decide))
          exact unmarked_of_length_lt (by decide)
        · cases h

theorem read_waitingComment (position total : Int) {owns : List Own} (howns : ∀ own ∈ owns, own.Valid) :
    read (waitingComment position total owns) = { owns := owns.take maxOwns } :=
  read_statusBody (unmarked_of_plain (StatusComment.plain_waiting position total)) howns

theorem read_ineligibleComment {reason label : String} (hreason : Unmarked reason) (hlabel : Unmarked label) {owns : List Own}
    (howns : ∀ own ∈ owns, own.Valid) : read (ineligibleComment reason label owns) = { owns := owns.take maxOwns } := by
  refine read_statusBody ?_ howns
  simp only [String.append_assoc]
  refine unmarked_append (by decide) (unmarked_append_head (c := '.') hreason ?_ (by decide) (head?_append_literal (by decide)))
  refine unmarked_append (by decide) (unmarked_append_head (c := '`') hlabel ?_ (by decide) (by decide))
  exact unmarked_of_length_lt (by decide)

/-! ### The snapshot of a world -/

/-- The calls that read neither comments nor workflow runs. -/
def Call.steady : Call → Bool
  | .resolveBranch _ | .issues _ | .pullRequest _ | .lastLabeled _ _ | .canWrite _ | .changedFiles _ | .checkRuns _ | .compare _ _ => true
  | _ => false

namespace World

variable {w w₂ : World}

/-- The world has this answer to a call, and the call leaves it as it is. -/
def Answers (w : World) (event : Event Call.Ans) : Prop := effect event.1 .done w = some (event.2, w)

theorem answers_unique (w : World) (op : Call) (a b : op.Ans) (ha : w.Answers ⟨op, a⟩) (hb : w.Answers ⟨op, b⟩) : a = b := by
  have heq := ha.symm.trans hb
  rw [Option.some.injEq, Prod.mk.injEq] at heq
  exact heq.1

structure Alike (w w₂ : World) : Prop where
  commits : w₂.commits = w.commits
  branches : w₂.branches = w.branches
  pulls : w₂.pulls = w.pulls
  checkRuns : w₂.checkRuns = w.checkRuns
  writers : w₂.writers = w.writers

theorem Alike.trans {w₁ : World} (h : w.Alike w₁) (h' : w₁.Alike w₂) : w.Alike w₂ :=
  ⟨h'.commits.trans h.commits, h'.branches.trans h.branches, h'.pulls.trans h.pulls, h'.checkRuns.trans h.checkRuns, h'.writers.trans h.writers⟩

theorem Alike.answers (h : w.Alike w₂) {op : Call} (hop : op.steady = true) {answer : op.Ans} (hanswer : w.Answers ⟨op, answer⟩) :
    w₂.Answers ⟨op, answer⟩ := by
  obtain ⟨hcommits, hbranches, hpulls, hruns, hwriters⟩ := h
  have hview : w₂.view = w.view := by
    funext pr
    simp only [view, head, hbranches]
  cases op <;> first
    | exact absurd hop Bool.false_ne_true
    | (simp only [Answers, effect, hcommits, hbranches, hpulls, hruns, hwriters, hview, Option.some.injEq, Prod.mk.injEq, and_true] at hanswer ⊢
       exact hanswer)

theorem Alike.gives (h : w.Alike w₂) {op : Call} (hop : op.steady = true) {v : op.Val} (hgives : Try.Gives w.Answers (call op) v) :
    Try.Gives w₂.Answers (call op) v :=
  gives_call_iff.mpr (h.answers hop (gives_call_iff.mp hgives))

def listed (w : World) (row : PullRequest) : PR := { w.view row with labeledAt := row.labeledAt, labeledBy := row.labeledBy }

end World

def InFlight.forget (inFlight : InFlight) : InFlight := { inFlight with batchmateRuns := [] }

namespace Queue

variable {q : Queue} {w w₂ : World} {now : Int} {targetSHA : String} {queued : List QueuedPR} {stack : Stack}

theorem gives_queuedPRs (h : w.Alike w₂) {prs : List PR} (hgives : Try.Gives w.Answers q.queuedPRs prs) : Try.Gives w₂.Answers q.queuedPRs prs := by
  obtain ⟨numbers, hnumbers, hrest⟩ := Try.gives_bind_iff.mp hgives
  refine Try.gives_bind_iff.mpr ⟨numbers, h.gives rfl hnumbers, hrest.foldlM_congr fun number _ prs prs' hround => ?_⟩
  obtain ⟨pr, hpr, hround⟩ := Try.gives_bind_iff.mp hround
  obtain ⟨labeled, hlabeled, hpure⟩ := Try.gives_bind_iff.mp hround
  exact Try.gives_bind_iff.mpr ⟨pr, h.gives rfl hpr, Try.gives_bind_iff.mpr ⟨labeled, h.gives rfl hlabeled, Try.gives_pure_iff.mpr (Try.gives_pure_iff.mp hpure)⟩⟩

theorem found_eq_ok {α : Type} {o : Option α} {a : α} (h : World.found o = .ok a) : o = some a := by
  cases o with
  | none => cases h
  | some b => exact congrArg some (Except.ok.inj h)

theorem row_of_queuedPRs {prs : List PR} (hgives : Try.Gives w.Answers q.queuedPRs prs) :
    ∀ pr ∈ prs, ∃ row, w.pulls.get pr.number = some row ∧ pr = w.listed row := by
  obtain ⟨numbers, -, hrest⟩ := Try.gives_bind_iff.mp hgives
  refine hrest.foldlM (fun _ prs => ∀ pr ∈ prs, ∃ row, w.pulls.get pr.number = some row ∧ pr = w.listed row) ?_ (List.forall_mem_nil _)
  intro number rest prs prs' hprs hround
  obtain ⟨pr, hpr, hround⟩ := Try.gives_bind_iff.mp hround
  obtain ⟨labeled, hlabeled, hpure⟩ := Try.gives_bind_iff.mp hround
  rw [Try.gives_pure_iff] at hpure
  have hview : World.found ((w.pulls.get number).map w.view) = .ok pr := (Prod.mk.inj (Option.some.inj (gives_call_iff.mp hpr))).1
  have hlabel : World.found ((w.pulls.get number).map fun pr => (pr.labeledAt, pr.labeledBy)) = .ok labeled :=
    (Prod.mk.inj (Option.some.inj (gives_call_iff.mp hlabeled))).1
  obtain ⟨row, hrow, rfl⟩ := Option.map_eq_some_iff.mp (found_eq_ok hview)
  obtain ⟨row', hrow', rfl⟩ := Option.map_eq_some_iff.mp (found_eq_ok hlabel)
  obtain rfl : row' = row := Option.some.inj (hrow'.symm.trans hrow)
  rw [hpure]
  refine List.forall_mem_append.mpr ⟨hprs, List.forall_mem_singleton.mpr ⟨row', ?_, rfl⟩⟩
  exact Table.get_of_mem (Table.mem_of_get hrow)

theorem gives_labelerCanWrite (h : w.Alike w₂) {known : List (String × Bool)} {login : String} {permission : Bool × List (String × Bool)}
    (hgives : Try.Gives w.Answers (labelerCanWrite known login) permission) : Try.Gives w₂.Answers (labelerCanWrite known login) permission := by
  unfold labelerCanWrite at hgives ⊢
  split
  · rename_i hlogin
    rw [if_pos hlogin] at hgives
    exact Try.gives_pure_iff.mpr (Try.gives_pure_iff.mp hgives)
  · rename_i hlogin
    rw [if_neg hlogin] at hgives
    split at hgives
    · exact Try.gives_pure_iff.mpr (Try.gives_pure_iff.mp hgives)
    · obtain ⟨allowed, hallowed, hpure⟩ := Try.gives_bind_iff.mp hgives
      exact Try.gives_bind_iff.mpr ⟨allowed, h.gives rfl hallowed, Try.gives_pure_iff.mpr (Try.gives_pure_iff.mp hpure)⟩

def withPR (q : Queue) (w : World) (loading : Loading) (pr : PR) (permission : Bool × List (String × Bool)) : Loading :=
  if q.botLogin = "" then
    { loading with canWrite := permission.2, queued := loading.queued ++ [{ pr with labelerCanWrite := permission.1 }] }
  else {
    canWrite := permission.2
    queued := loading.queued ++ [{ pr with
      labelerCanWrite := permission.1
      owns := (q.reading w pr.number).owns
      landed := (q.reading w pr.number).landed.any (·.head = pr.headSHA) }]
    marked := loading.marked ++ ((q.reading w pr.number).stack.filter (·.top.number = pr.number)).toList }

variable {loading : Loading}

theorem gives_loadPR_iff {loading' : Loading} {pr : PR} : Try.Gives w.Answers (q.loadPR loading pr) loading' ↔
    ∃ permission, Try.Gives w.Answers (labelerCanWrite loading.canWrite pr.labeledBy) permission ∧ loading' = q.withPR w loading pr permission := by
  unfold loadPR withPR
  rw [Try.gives_bind_iff]
  refine exists_congr fun permission => and_congr_right fun _ => ?_
  split
  · exact Try.gives_pure_iff
  · rw [Try.gives_bind_iff]
    constructor
    · rintro ⟨comment, hcomment, hpure⟩
      rw [gives_call_iff, World.Answers, World.effect, Option.some.injEq, Prod.mk.injEq, Except.ok.injEq] at hcomment
      rw [Try.gives_pure_iff, ← hcomment.1] at hpure
      exact hpure
    · rintro rfl
      exact ⟨w.said q.botLogin pr.number, gives_call_iff.mpr rfl, Try.gives_pure_iff.mpr rfl⟩

structure SameReading (q : Queue) (w w₂ : World) (pr : PR) : Prop where
  owns : (q.reading w₂ pr.number).owns = (q.reading w pr.number).owns
  landed : (q.reading w₂ pr.number).landed.any (·.head = pr.headSHA) = (q.reading w pr.number).landed.any (·.head = pr.headSHA)
  stack : (q.reading w₂ pr.number).stack.filter (·.top.number = pr.number) = (q.reading w pr.number).stack.filter (·.top.number = pr.number)

theorem gives_loadPR (h : w.Alike w₂) {loading' : Loading} {pr : PR} (hsame : q.botLogin ≠ "" → q.SameReading w w₂ pr)
    (hgives : Try.Gives w.Answers (q.loadPR loading pr) loading') : Try.Gives w₂.Answers (q.loadPR loading pr) loading' := by
  obtain ⟨permission, hpermission, rfl⟩ := gives_loadPR_iff.mp hgives
  refine gives_loadPR_iff.mpr ⟨permission, gives_labelerCanWrite h hpermission, ?_⟩
  unfold withPR
  split
  · rfl
  · rename_i hbot
    obtain ⟨howns, hlanded, hstack⟩ := hsame hbot
    rw [howns, hlanded, hstack]

structure Holds (q : Queue) (w : World) (loading : Loading) : Prop where
  owns : ∀ pr ∈ loading.queued, pr.owns = (q.reading w pr.number).owns
  landed : ∀ pr ∈ loading.queued, pr.landed = (q.reading w pr.number).landed.any (·.head = pr.headSHA)
  stack : ∀ pr ∈ loading.queued, ∀ stack, (q.reading w pr.number).stack = some stack → stack.top.number = pr.number → stack ∈ loading.marked

theorem Holds.withPR (h : q.Holds w loading) (hbot : q.botLogin ≠ "") (pr : PR) (permission : Bool × List (String × Bool)) :
    q.Holds w (q.withPR w loading pr permission) := by
  unfold Queue.withPR
  rw [if_neg hbot]
  refine ⟨?_, ?_, ?_⟩
  · exact List.forall_mem_append.mpr ⟨h.owns, List.forall_mem_singleton.mpr rfl⟩
  · exact List.forall_mem_append.mpr ⟨h.landed, List.forall_mem_singleton.mpr rfl⟩
  · refine List.forall_mem_append.mpr ⟨fun pr hpr stack hstack htop => List.mem_append_left _ (h.stack pr hpr stack hstack htop), ?_⟩
    refine List.forall_mem_singleton.mpr fun stack hstack htop => List.mem_append_right _ ?_
    rw [Option.mem_toList, Option.filter_eq_some_iff]
    exact ⟨hstack, decide_eq_true htop⟩

theorem holds_of_gives (hbot : q.botLogin ≠ "") {prs : List PR} (hgives : Try.Gives w.Answers (prs.foldlM q.loadPR {}) loading) :
    q.Holds w loading := by
  refine hgives.foldlM (fun _ loading => q.Holds w loading) (fun pr rest loading loading' hholds hround => ?_) ?_
  · obtain ⟨permission, -, rfl⟩ := gives_loadPR_iff.mp hround
    exact hholds.withPR hbot pr permission
  · exact ⟨List.forall_mem_nil _, List.forall_mem_nil _, List.forall_mem_nil _⟩

/-! ### Stacks in flight -/

theorem gives_changedFiles (h : w.Alike w₂) {files : List String} (hgives : Try.Gives w.Answers (q.changedFiles stack) files) :
    Try.Gives w₂.Answers (q.changedFiles stack) files := by
  unfold changedFiles at hgives ⊢
  split at hgives
  · rename_i hneeds
    rw [if_pos hneeds]
    refine hgives.foldlM_congr fun number _ files files' hround => ?_
    obtain ⟨changed, hchanged, hpure⟩ := Try.gives_bind_iff.mp hround
    exact Try.gives_bind_iff.mpr ⟨changed, h.gives rfl hchanged, Try.gives_pure_iff.mpr (Try.gives_pure_iff.mp hpure)⟩
  · rename_i hneeds
    rw [if_neg hneeds]
    exact Try.gives_pure_iff.mpr (Try.gives_pure_iff.mp hgives)

theorem exists_gives_batchmateRuns (w : World) (stack : Stack) : ∃ ids, Try.Gives w.Answers (batchmateRuns stack) ids := by
  refine Try.exists_gives_foldlM (fun ids member => ?_) _ _
  exact ⟨_, Try.gives_bind_iff.mpr ⟨w.workflowRuns member.sha, gives_call_iff.mpr rfl, Try.gives_pure_iff.mpr rfl⟩⟩

theorem gives_loadChecks (h : w.Alike w₂) {inFlight : InFlight} (hgives : Try.Gives w.Answers (q.loadChecks now stack) inFlight)
    (hpending : inFlight.checks.state = .pending) : ∃ inFlight₂, Try.Gives w₂.Answers (q.loadChecks now stack) inFlight₂ ∧
      inFlight₂.forget = inFlight.forget := by
  unfold loadChecks at hgives ⊢
  simp only [Try.gives_bind_iff] at hgives ⊢
  obtain ⟨files, hfiles, runs, hruns, hgives⟩ := hgives
  have hfiles₂ := gives_changedFiles h hfiles
  have hruns₂ : Try.Gives w₂.Answers (call (.checkRuns stack.top.sha)) runs := h.gives rfl hruns
  generalize hretried : (if 0 < stack.retry then stack.atTime else 0) = retriedAt at hgives ⊢
  generalize hchecks : evaluate q.glob q.config.requiredChecks files runs (now - stack.atTime) q.config.checkTimeout retriedAt = checks at hgives
  split at hgives
  · rename_i hstate
    split at hgives
    · rw [Try.gives_pure_iff.mp hgives, hstate] at hpending
      cases hpending
    · obtain ⟨_, -, hpure⟩ := Try.gives_bind_iff.mp hgives
      rw [Try.gives_pure_iff.mp hpure, hstate] at hpending
      cases hpending
  · rename_i hstate
    obtain ⟨_, -, hpure⟩ := Try.gives_bind_iff.mp hgives
    obtain ⟨ids, hids⟩ := exists_gives_batchmateRuns w₂ stack
    refine ⟨{ stack, checks, batchmateRuns := ids }, ⟨files, hfiles₂, runs, hruns₂, ?_⟩, ?_⟩
    · rw [hchecks]
      split
      · rename_i hother
        rw [hstate] at hother
        cases hother
      · exact Try.gives_bind_iff.mpr ⟨ids, hids, Try.gives_pure_iff.mpr rfl⟩
      · rename_i hother
        exact absurd hstate hother
    · rw [Try.gives_pure_iff.mp hpure]
      rfl
  · rename_i hother
    rw [Try.gives_pure_iff.mp hgives] at hpending
    exact absurd hpending hother

theorem gives_loadInFlight (h : w.Alike w₂) {inFlight : InFlight} (hgives : Try.Gives w.Answers (q.loadInFlight now targetSHA queued stack) inFlight)
    (hfresh : staleReason stack targetSHA queued = none) (hpending : inFlight.checks.state = .pending) :
    ∃ inFlight₂, Try.Gives w₂.Answers (q.loadInFlight now targetSHA queued stack) inFlight₂ ∧ inFlight₂.forget = inFlight.forget := by
  have hbase : ¬stack.base ≠ targetSHA := by
    intro hne
    rw [staleReason, if_pos hne] at hfresh
    cases hfresh
  unfold loadInFlight at hgives ⊢
  rw [if_neg hbase, hfresh, if_neg (by simp)] at hgives ⊢
  exact gives_loadChecks h hgives hpending

end Queue

namespace Snapshot

structure Waits (s : Snapshot) (inFlight : InFlight) : Prop where
  landed : inFlight.landed = false
  fresh : staleReason inFlight.stack s.targetSHA s.queued = none
  pending : inFlight.checks.state = .pending

structure Same (s s₂ : Snapshot) : Prop where
  now : s₂.now = s.now
  targetSHA : s₂.targetSHA = s.targetSHA
  queued : s₂.queued = s.queued
  inFlight : s₂.inFlight.map InFlight.forget = s.inFlight.map InFlight.forget

end Snapshot

theorem exists_forall₂_of_forall₂ {α β γ : Type} {R R' : α → β → Prop} {f : β → γ} {l : List α} {m : List β} (h : List.Forall₂ R l m)
    (hstep : ∀ a b, b ∈ m → R a b → ∃ c, R' a c ∧ f c = f b) : ∃ m', List.Forall₂ R' l m' ∧ m'.map f = m.map f := by
  induction h with
  | nil => exact ⟨[], .nil, rfl⟩
  | cons hfirst _ ih =>
    obtain ⟨c, hc, heq⟩ := hstep _ _ List.mem_cons_self hfirst
    obtain ⟨m', hm', hmap⟩ := ih fun a b hb => hstep a b (List.mem_cons_of_mem _ hb)
    exact ⟨c :: m', .cons hc hm', by rw [List.map_cons, List.map_cons, heq, hmap]⟩

namespace Queue

variable {q : Queue} {w w₂ : World} {now : Int} {targetSHA : String} {prs : List PR} {s : Snapshot}

theorem gives_loadQueue (h : w.Alike w₂) (hgives : Try.Gives w.Answers (q.loadQueue now targetSHA prs) s) (hwaits : ∀ inFlight ∈ s.inFlight, s.Waits inFlight)
    (hsame : q.botLogin ≠ "" → ∀ pr ∈ prs, q.SameReading w w₂ pr) : ∃ s₂, Try.Gives w₂.Answers (q.loadQueue now targetSHA prs) s₂ ∧ s.Same s₂ := by
  obtain ⟨loading, inFlight, hloading, hall, rfl⟩ := gives_loadQueue_iff.mp hgives
  have hloading₂ : Try.Gives w₂.Answers ((sortFIFO prs).foldlM q.loadPR {}) loading := by
    refine hloading.foldlM_congr fun pr hpr loading loading' hround => ?_
    exact gives_loadPR h (fun hbot => hsame hbot pr ((List.mem_insertionSort earlier).mp hpr)) hround
  obtain ⟨inFlight₂, hall₂, hforget⟩ := exists_forall₂_of_forall₂ (f := InFlight.forget) hall fun stack next hmem hnext => by
    obtain ⟨hlanded, hfresh, hpending⟩ := hwaits next hmem
    rw [(flownAs_of_loadInFlight hnext).1] at hfresh
    exact gives_loadInFlight h hnext hfresh hpending
  exact ⟨_, gives_loadQueue_iff.mpr ⟨loading, inFlight₂, hloading₂, hall₂, rfl⟩, rfl, rfl, rfl, hforget⟩

theorem holds_of_loadQueue (hbot : q.botLogin ≠ "") (hgives : Try.Gives w.Answers (q.loadQueue now targetSHA prs) s) :
    q.Holds w { queued := s.queued, marked := s.inFlight.map (·.stack) } := by
  obtain ⟨loading, inFlight, hloading, hall, rfl⟩ := gives_loadQueue_iff.mp hgives
  have hmarked : inFlight.map (·.stack) = loading.marked := (flownAs_of_forall₂ hall).1
  obtain ⟨howns, hlanded, hstack⟩ := holds_of_gives hbot hloading
  exact ⟨howns, hlanded, fun pr hpr stack hread htop => hmarked ▸ hstack pr hpr stack hread htop⟩

end Queue

/-! ### The plan -/

def Action.isIdle : Action → Bool
  | .comment _ _ | .cancel _ _ => true
  | _ => false

def Action.isCancel : Action → Bool
  | .cancel _ _ => true
  | _ => false

namespace Snapshot

variable {s s₂ : Snapshot} {config : Config}

theorem exists_failureActions (s : Snapshot) (inFlight : InFlight) : ∃ action ∈ failureActions s inFlight, action.isIdle = false := by
  unfold failureActions
  dsimp only
  split
  · exact ⟨_, List.mem_singleton_self _, rfl⟩
  · split
    · exact ⟨_, List.mem_singleton_self _, rfl⟩
    · exact ⟨_, List.mem_cons_self, rfl⟩

theorem waits_of_idle (hidle : ∀ action ∈ (planTick s config).actions, action.isIdle = true) {inFlight : InFlight} (hmem : inFlight ∈ s.inFlight) :
    s.Waits inFlight := by
  obtain ⟨reason, hmarked⟩ := exists_marked hmem
  have hresolve : ∀ action ∈ s.resolve (inFlight, reason), action.isIdle = true := fun action haction =>
    hidle action (List.mem_append_left _ (List.mem_append_left _ (List.mem_flatMap.mpr ⟨_, hmarked, haction⟩)))
  unfold resolve at hresolve
  dsimp only at hresolve
  split at hresolve
  · exact absurd (hresolve _ (List.mem_singleton_self _)) Bool.false_ne_true
  · rename_i hlanded
    rw [Bool.not_eq_true] at hlanded
    split at hresolve
    · exact absurd (hresolve _ (List.mem_singleton_self _)) Bool.false_ne_true
    · have hfresh := (mem_marked hmarked).2 rfl
      rw [stale, hlanded, if_neg Bool.false_ne_true] at hfresh
      split at hresolve
      · rename_i hpending
        exact ⟨hlanded, hfresh, hpending⟩
      · exact absurd (hresolve _ (List.mem_singleton_self _)) Bool.false_ne_true
      · obtain ⟨action, haction, hbusy⟩ := exists_failureActions s inFlight
        rw [hresolve action haction] at hbusy
        cases hbusy

theorem Waits.forget {inFlight inFlight₂ : InFlight} (h : s.Same s₂) (heq : inFlight₂.forget = inFlight.forget) (hwaits : s.Waits inFlight) :
    s₂.Waits inFlight₂ := by
  have hstack : inFlight₂.stack = inFlight.stack := (InFlight.mk.inj heq).1
  have hlanded : inFlight₂.landed = inFlight.landed := (InFlight.mk.inj heq).2.1
  have hchecks : inFlight₂.checks = inFlight.checks := (InFlight.mk.inj heq).2.2.1
  refine ⟨hlanded.trans hwaits.landed, ?_, ?_⟩
  · rw [hstack, h.targetSHA, h.queued]
    exact hwaits.fresh
  · rw [hchecks]
    exact hwaits.pending

theorem Same.waits (h : s.Same s₂) (hwaits : ∀ inFlight ∈ s.inFlight, s.Waits inFlight) : ∀ inFlight ∈ s₂.inFlight, s₂.Waits inFlight := by
  intro inFlight₂ hmem
  have hforget : inFlight₂.forget ∈ s.inFlight.map InFlight.forget := h.inFlight ▸ List.mem_map_of_mem hmem
  obtain ⟨inFlight, hinFlight, heq⟩ := List.mem_map.mp hforget
  exact (hwaits inFlight hinFlight).forget h heq.symm

theorem marked_of_waits (hwaits : ∀ inFlight ∈ s.inFlight, s.Waits inFlight) : s.marked = s.inFlight.map fun inFlight => (inFlight, none) := by
  have hstale : ∀ inFlight ∈ s.inFlight, s.stale inFlight = none := by
    intro inFlight hmem
    rw [stale, (hwaits inFlight hmem).landed, if_neg Bool.false_ne_true, (hwaits inFlight hmem).fresh]
  have hadvancing : s.advancing = none := by
    refine List.findIdx?_eq_none_iff.mpr fun inFlight hmem => ?_
    rw [ready, (hwaits inFlight hmem).pending]
    exact Bool.and_false _
  refine List.ext_getElem (by simp [marked]) fun i hi hi' => ?_
  have hlt : i < s.inFlight.length := by simpa [marked] using hi
  simp only [marked, hadvancing, List.getElem_mapIdx, List.getElem_map, hstale _ (List.getElem_mem hlt)]

theorem resolve_of_waits (hwaits : ∀ inFlight ∈ s.inFlight, s.Waits inFlight) : (s.marked.flatMap s.resolve).filter (!·.isCancel) = [] := by
  rw [marked_of_waits hwaits]
  refine List.filter_eq_nil_iff.mpr fun action haction => ?_
  obtain ⟨entry, hentry, hresolve⟩ := List.mem_flatMap.mp haction
  obtain ⟨inFlight, hmem, rfl⟩ := List.mem_map.mp hentry
  rw [resolve_of_pending (hwaits inFlight hmem).landed (hwaits inFlight hmem).pending] at hresolve
  split at hresolve
  · cases hresolve
  · rw [List.mem_singleton.mp hresolve]
    exact Bool.false_ne_true

def stacked (s : Snapshot) : List Int := s.inFlight.flatMap fun inFlight => inFlight.stack.numbers

theorem free_eq (s : Snapshot) : s.free = s.queued.filter fun pr => !pr.landed && pr.number ∉ s.stacked := by
  refine List.filter_congr fun pr _ => congrArg (!pr.landed && ·) (decide_eq_decide.mpr (not_congr ?_))
  rw [stacked, List.mem_flatMap, List.mem_flatMap]
  constructor
  · rintro ⟨entry, hentry, hmem⟩
    exact ⟨entry.1, (mem_marked hentry).1, hmem⟩
  · rintro ⟨inFlight, hinFlight, hmem⟩
    obtain ⟨reason, hmarked⟩ := exists_marked hinFlight
    exact ⟨(inFlight, reason), hmarked, hmem⟩

theorem Same.stacked (h : s.Same s₂) : s₂.stacked = s.stacked := by
  have hforget : ∀ s : Snapshot, s.stacked = (s.inFlight.map InFlight.forget).flatMap fun inFlight => inFlight.stack.numbers := fun s => by
    rw [List.flatMap_map]
    rfl
  rw [hforget, hforget, h.inFlight]

theorem Same.next (h : s.Same s₂) : s₂.next config = s.next config := by
  by_cases hnone : s.inFlight = []
  · have hnone₂ : s₂.inFlight = [] := by
      have hmap := h.inFlight
      rwa [hnone, List.map_nil, List.map_eq_nil_iff] at hmap
    have heq : s₂ = s := by
      obtain ⟨now, targetSHA, queued, inFlight⟩ := s
      obtain ⟨now₂, targetSHA₂, queued₂, inFlight₂⟩ := s₂
      obtain ⟨rfl, rfl, rfl, -⟩ := h
      rw [Snapshot.mk.injEq]
      exact ⟨rfl, rfl, rfl, hnone₂.trans hnone.symm⟩
    rw [heq]
  · have hsome : s₂.inFlight ≠ [] := by
      intro hnone₂
      have hmap := h.inFlight
      rw [hnone₂, List.map_nil] at hmap
      exact hnone (List.map_eq_nil_iff.mp hmap.symm)
    rw [next_eq_nil hnone, next_eq_nil hsome]

theorem Same.actions (h : s.Same s₂) (hwaits : ∀ inFlight ∈ s.inFlight, s.Waits inFlight) :
    (planTick s₂ config).actions.filter (!·.isCancel) = (planTick s config).actions.filter (!·.isCancel) := by
  have hfree : s₂.free = s.free := by rw [free_eq, free_eq, h.queued, h.stacked]
  have hcomments : s₂.comments config = s.comments config := by
    rw [comments, comments, waiting, waiting, candidates, candidates, hfree, h.next]
  simp only [planTick, List.filter_append, resolve_of_waits hwaits, resolve_of_waits (h.waits hwaits), hcomments, h.next, h.targetSHA]

end Snapshot

/-! ### What a tick writes -/

namespace World

/-- A call that is made with nobody else at work and that succeeds if it can. -/
def perform (op : Call) (w : World) : op.Ans × World := (effect op .done w).getD (.error (.message "not possible"), w)

end World

namespace Queue

variable {q : Queue} {w w₁ w₂ : World} {s : Snapshot}

/-- Some comments of the queue are new, each of them one of these actions. -/
structure Commented (q : Queue) (actions : List Action) (w w₁ : World) : Prop where
  alike : w.Alike w₁
  comments : ∀ number, w₁.said q.botLogin number = w.said q.botLogin number ∨
    ∃ body, .comment number body ∈ actions ∧ w₁.said q.botLogin number = .ofText body

theorem execute_cancel (runIDs : List Int) (w : World) : Prog.execute World.perform (cancel runIDs).run w = (.ok (), w) := by
  unfold cancel
  induction runIDs with
  | nil => rfl
  | cons id rest ih => exact ih

theorem execute_apply {action : Action} (hidle : action.isIdle = true) (w : World) :
    ∃ report w₁, Prog.execute World.perform (q.apply s action).run w = (.ok report, w₁) ∧ q.Commented [action] w w₁ := by
  cases action with
  | comment number body =>
    refine ⟨_, _, rfl, ⟨rfl, rfl, rfl, rfl, rfl⟩, fun n => ?_⟩
    by_cases hn : n = number
    · subst hn
      exact Or.inr ⟨body, List.mem_singleton_self _, World.said_setComment_self q.botLogin n _ w⟩
    · exact Or.inl (World.said_setComment_of_ne (fun heq => hn heq.2) _ w)
  | cancel stack runIDs =>
    refine ⟨{}, w, ?_, ⟨rfl, rfl, rfl, rfl, rfl⟩, fun n => Or.inl rfl⟩
    rw [apply]
    exact Try.execute_bind_ok (execute_cancel runIDs w) _
  | form _ _ => cases hidle
  | advance _ => cases hidle
  | landed _ => cases hidle
  | retry _ _ _ => cases hidle
  | reject _ _ _ _ => cases hidle
  | split _ _ => cases hidle
  | abandon _ _ _ => cases hidle

theorem Commented.trans {actions actions' : List Action} (h : q.Commented actions w w₁) (h' : q.Commented actions' w₁ w₂) :
    q.Commented (actions ++ actions') w w₂ := by
  refine ⟨h.alike.trans h'.alike, fun number => ?_⟩
  rcases h'.comments number with hkept | ⟨body, hbody, hsaid⟩
  · rcases h.comments number with hkept₁ | ⟨body, hbody, hsaid⟩
    · exact Or.inl (hkept.trans hkept₁)
    · exact Or.inr ⟨body, List.mem_append_left _ hbody, hkept.trans hsaid⟩
  · exact Or.inr ⟨body, List.mem_append_right _ hbody, hsaid⟩

theorem execute_applyPlan {actions : List Action} (hidle : ∀ action ∈ actions, action.isIdle = true) (idle : Bool) (w : World) :
    ∃ report w₁, Prog.execute World.perform (q.applyPlan s { actions, idle }).run w = (.ok report, w₁) ∧ q.Commented actions w w₁ := by
  unfold applyPlan
  dsimp only
  generalize ({ idle := idle } : Report) = report
  induction actions generalizing report w with
  | nil => exact ⟨report, w, rfl, ⟨rfl, rfl, rfl, rfl, rfl⟩, fun _ => Or.inl rfl⟩
  | cons action rest ih =>
    obtain ⟨hfirst, hrest⟩ := List.forall_mem_cons.mp hidle
    obtain ⟨done, w₁, happly, hcommented⟩ := execute_apply (q := q) (s := s) hfirst w
    obtain ⟨final, w₂, hfinal, hcommented'⟩ := ih hrest w₁ (report ++ done)
    refine ⟨final, w₂, ?_, hcommented.trans hcommented'⟩
    rw [List.foldlM_cons, Try.execute_bind_ok (Try.execute_bind_ok happly _)]
    exact hfinal

theorem comment_of_plan {config : Config} {number : Int} {body : String} (h : .comment number body ∈ (planTick s config).actions) :
    ∃ pr ∈ s.free, pr.number = number ∧ ((∃ position total, body = waitingComment position total pr.owns) ∨
      ∃ reason, ineligibleReason pr config = some reason ∧ body = ineligibleComment reason config.label pr.owns) := by
  rcases List.mem_append.mp h with hactions | hform
  · rcases List.mem_append.mp hactions with hresolve | hcomments
    · obtain ⟨⟨inFlight, stale⟩, -, haction⟩ := List.mem_flatMap.mp hresolve
      rcases Snapshot.mem_resolve haction with ⟨heq, -⟩ | ⟨_, _, heq, -⟩ | ⟨-, -, ⟨-, heq⟩ | ⟨-, heq⟩ | ⟨-, -, hfailure⟩⟩
      · cases heq
      · cases heq
      · cases heq
      · cases heq
      · rcases mem_failureActions hfailure with ⟨_, _, _, heq⟩ | ⟨_, _, _, heq⟩ | ⟨_, heq⟩ | ⟨_, heq⟩ <;> cases heq
    · rcases List.mem_append.mp hcomments with hrefused | hwaiting
      · obtain ⟨pr, hpr, heq⟩ := List.mem_filterMap.mp hrefused
        obtain ⟨reason, hreason, hcomment⟩ := Option.map_eq_some_iff.mp heq
        rw [Action.comment.injEq] at hcomment
        exact ⟨pr, hpr, hcomment.1, Or.inr ⟨reason, hreason, hcomment.2.symm⟩⟩
      · obtain ⟨i, hi, hcomment⟩ := List.mem_mapIdx.mp hwaiting
        have hpr : (s.waiting config)[i] ∈ s.candidates config := List.mem_of_mem_drop (List.getElem_mem hi)
        rw [Action.comment.injEq] at hcomment
        exact ⟨_, (List.mem_filter.mp hpr).1, hcomment.1, Or.inl ⟨_, _, hcomment.2.symm⟩⟩
  · split at hform
    · cases hform
    · cases List.mem_singleton.mp hform

/-- What GitHub guarantees about names: a label is short, and the name of a branch has no space. -/
structure Named (q : Queue) (w : World) : Prop where
  label : q.config.label.length ≤ maxLabelLength
  target : IsRefName q.config.target
  base : ∀ number pr, w.pulls.get number = some pr → IsRefName pr.baseRef

def Loads (q : Queue) (now : Int) (w : World) (s : Snapshot) : Prop := Try.Gives w.Answers (q.loadSnapshot now) s

def applied (q : Queue) (s : Snapshot) (w : World) : World := (Prog.execute World.perform (q.applyPlan s (planTick s q.config)).run w).2

/-- A tick at `now`, and then whatever becomes of the workflow runs. -/
def TicksTo (q : Queue) (now : Int) (w w₂ : World) : Prop := ∃ s, q.Loads now w s ∧ (q.applied s w).Alike w₂ ∧ w₂.comments = (q.applied s w).comments

theorem sameReading_of_commented (hnamed : q.Named w) {now : Int} {targetSHA : String} {prs : List PR} (hbot : q.botLogin ≠ "")
    (hprs : Try.Gives w.Answers q.queuedPRs prs) (hqueue : Try.Gives w.Answers (q.loadQueue now targetSHA prs) s)
    (hcommented : q.Commented (planTick s q.config).actions w w₁) : ∀ pr ∈ prs, q.SameReading w w₁ pr := by
  intro pr hpr
  rcases hcommented.comments pr.number with hkept | ⟨body, hbody, hsaid⟩
  · have hreading : q.reading w₁ pr.number = q.reading w pr.number := by rw [reading, reading, hkept]
    exact ⟨by rw [hreading], by rw [hreading], by rw [hreading]⟩
  · obtain ⟨other, hfree, hnumber, hcomment⟩ := comment_of_plan hbody
    rw [Snapshot.free_eq, List.mem_filter, Bool.and_eq_true, decide_eq_true_eq, Bool.not_eq_true'] at hfree
    obtain ⟨hqueued, hopen, hloose⟩ := hfree
    obtain ⟨howns, hlanded, hstack⟩ := holds_of_loadQueue hbot hqueue
    -- the comment is about this pull request: there is one of each number
    obtain ⟨row, hrow, rfl⟩ := row_of_queuedPRs hprs pr hpr
    obtain ⟨trace, htrace, -⟩ := hqueue
    have hother : other.toPR ∈ prs := by
      rw [← List.mem_insertionSort earlier, ← sortFIFO, ← (queued_loadQueue htrace).1]
      exact List.mem_map_of_mem hqueued
    obtain ⟨row', hrow', heq⟩ := row_of_queuedPRs hprs _ hother
    obtain rfl : row' = row := Option.some.inj (hrow'.symm.trans (hnumber ▸ hrow))
    rw [← heq] at hsaid hnumber ⊢
    have hold : q.reading w other.number = read (w.said q.botLogin other.number).body := (w.said q.botLogin other.number).reads
    obtain ⟨htwo, hvalid⟩ := parseOwns_spec (w.said q.botLogin other.number).body
    have hrecords : other.owns = parseOwns (w.said q.botLogin other.number).body := by
      rw [howns other hqueued, hold]
      rfl
    rw [← hrecords] at htwo hvalid
    have hread : q.reading w₁ other.number = { owns := other.owns } := by
      have hlabel := unmarked_of_length_lt (hnamed.label.trans_lt (by decide))
      rw [reading, hsaid, ← List.take_of_length_le htwo]
      rcases hcomment with ⟨position, total, rfl⟩ | ⟨reason, hreason, rfl⟩
      · exact read_waitingComment position total hvalid
      · have hbase : IsRefName other.baseRef := by
          rw [heq]
          exact hnamed.base _ row' hrow'
        exact read_ineligibleComment (unmarked_ineligibleReason hbase hnamed.target hlabel hreason) hlabel hvalid
    refine ⟨?_, ?_, ?_⟩
    · rw [hread]
      exact howns other hqueued
    · rw [hread, ← hlanded other hqueued, hopen]
      rfl
    · -- a stack with this top would be in flight
      rw [hread]
      refine (Option.filter_eq_none_iff.mpr fun stack hmarker htop => hloose ?_).symm
      rw [decide_eq_true_eq] at htop
      have hmembers : stack.members ≠ [] := members_of_parseStack (hold ▸ hmarker)
      obtain ⟨inFlight, hinFlight, rfl⟩ := List.mem_map.mp (hstack other hqueued stack hmarker htop)
      exact List.mem_flatMap.mpr ⟨inFlight, hinFlight, htop ▸ List.mem_map_of_mem (Stack.top_mem hmembers)⟩

theorem TicksTo.loads {now : Int} (hnamed : q.Named w) (hload : q.Loads now w s)
    (hidle : ∀ action ∈ (planTick s q.config).actions, action.isIdle = true) (htick : q.TicksTo now w w₂) :
    q.Named w₂ ∧ ∃ s₂, q.Loads now w₂ s₂ ∧ s.Same s₂ := by
  obtain ⟨s', hload', halike, hcomments⟩ := htick
  obtain rfl : s' = s := hload'.unique w.answers_unique hload
  obtain ⟨report, w₁, happlied, hcommented⟩ := execute_applyPlan (q := q) (s := s') hidle (planTick s' q.config).idle w
  have hw₁ : q.applied s' w = w₁ := congrArg Prod.snd happlied
  rw [hw₁] at halike hcomments
  have hcommented₂ : q.Commented (planTick s' q.config).actions w w₂ := by
    refine ⟨hcommented.alike.trans halike, fun number => ?_⟩
    rw [World.said, hcomments]
    exact hcommented.comments number
  have hwaits : ∀ inFlight ∈ s'.inFlight, s'.Waits inFlight := fun inFlight hmem => Snapshot.waits_of_idle hidle hmem
  refine ⟨⟨hnamed.label, hnamed.target, hcommented₂.alike.pulls ▸ hnamed.base⟩, ?_⟩
  obtain ⟨targetSHA, htarget, hrest⟩ := Try.gives_bind_iff.mp hload
  obtain ⟨prs, hprs, hqueue⟩ := Try.gives_bind_iff.mp hrest
  obtain ⟨s₂, hqueue₂, hsame⟩ := gives_loadQueue hcommented₂.alike hqueue hwaits fun hbot =>
    sameReading_of_commented hnamed hbot hprs hqueue hcommented₂
  refine ⟨s₂, ?_, hsame⟩
  exact Try.gives_bind_iff.mpr ⟨targetSHA, hcommented₂.alike.gives rfl htarget, Try.gives_bind_iff.mpr ⟨prs, gives_queuedPRs hcommented₂.alike hprs, hqueue₂⟩⟩

end Queue

namespace Snapshot

variable {s s₂ s₃ : Snapshot}

theorem Same.trans (h : s.Same s₂) (h' : s₂.Same s₃) : s.Same s₃ :=
  ⟨h'.now.trans h.now, h'.targetSHA.trans h.targetSHA, h'.queued.trans h.queued, h'.inFlight.trans h.inFlight⟩

theorem Same.isIdle {config : Config} (h : s.Same s₂) (hidle : ∀ action ∈ (planTick s config).actions, action.isIdle = true) :
    ∀ action ∈ (planTick s₂ config).actions, action.isIdle = true := by
  intro action haction
  by_cases hcancel : action.isCancel = true
  · cases action <;> first
      | rfl
      | cases hcancel
  · have hkept : action ∈ (planTick s config).actions.filter (!·.isCancel) := by
      rw [← h.actions fun inFlight hmem => waits_of_idle hidle hmem]
      exact List.mem_filter.mpr ⟨haction, by simpa using hcancel⟩
    exact hidle action (List.mem_filter.mp hkept).1

theorem Same.map_inFlight {α : Type} (h : s.Same s₂) {f : InFlight → α} (hf : ∀ inFlight, f inFlight.forget = f inFlight) :
    s₂.inFlight.map f = s.inFlight.map f := by
  have hforget : ∀ s : Snapshot, s.inFlight.map f = (s.inFlight.map InFlight.forget).map f := fun s => by
    rw [List.map_map]
    exact List.map_congr_left fun inFlight _ => (hf inFlight).symm
  rw [hforget, hforget, h.inFlight]

end Snapshot

/-- After any number of idle ticks at one time, the same records, stacks and landed flags are loaded, and the same is planned but for cancellations. -/
theorem idle_ticks_are_fixed_points (q : Queue) {now : Int} {w w₂ : World} {s : Snapshot} (hnamed : q.Named w) (hload : q.Loads now w s)
    (hidle : ∀ action ∈ (planTick s q.config).actions, action.isIdle = true) (hticks : Relation.ReflTransGen (q.TicksTo now) w w₂) :
    (∃ s₂, q.Loads now w₂ s₂) ∧ ∀ s₂, q.Loads now w₂ s₂ → s₂.targetSHA = s.targetSHA ∧ s₂.queued = s.queued ∧
      s₂.inFlight.map (·.stack) = s.inFlight.map (·.stack) ∧ s₂.inFlight.map (·.landed) = s.inFlight.map (·.landed) ∧
      (planTick s₂ q.config).actions.filter (!·.isCancel) = (planTick s q.config).actions.filter (!·.isCancel) := by
  have hrun : q.Named w₂ ∧ ∃ s₂, q.Loads now w₂ s₂ ∧ s.Same s₂ := by
    induction hticks with
    | refl => exact ⟨hnamed, s, hload, rfl, rfl, rfl, rfl⟩
    | tail _ htick ih =>
      obtain ⟨hnamed₁, s₁, hload₁, hsame₁⟩ := ih
      obtain ⟨hnamed₂, s₂, hload₂, hsame₂⟩ := htick.loads hnamed₁ hload₁ (hsame₁.isIdle hidle)
      exact ⟨hnamed₂, s₂, hload₂, hsame₁.trans hsame₂⟩
  obtain ⟨-, s', hload', hsame⟩ := hrun
  refine ⟨⟨s', hload'⟩, fun s₂ hload₂ => ?_⟩
  obtain rfl : s₂ = s' := hload₂.unique w₂.answers_unique hload'
  exact ⟨hsame.targetSHA, hsame.queued, hsame.map_inFlight fun _ => rfl, hsame.map_inFlight fun _ => rfl,
    hsame.actions fun inFlight hmem => Snapshot.waits_of_idle hidle hmem⟩

namespace Demo

def member (number : Int) (headRef : String) (labeledAt : Int) : PullRequest :=
  { number, headRef, baseRef := "main", labeled := true, labeledAt, labeledBy := "alice" }

/-- The checks of the first pull request run, and the second one waits. -/
def testing : World where
  commits := .empty
  branches := fun branch => if branch = "main" then some (sha '0') else if branch = "one" then some (sha 'a') else if branch = "two" then some (sha 'b') else none
  pulls := Table.empty |>.put (member 2 "two" 6) |>.put (member 1 "one" 5)
  comments := fun login number => if login = "queue[bot]" ∧ number = 1 then some (StatusComment.member (alone 0 0) 0 []).comment else none
  writers := ["alice"]

def testingSnapshot : Snapshot where
  now := clock 60
  targetSHA := sha '0'
  queued := [
    { testing.listed (member 1 "one" 5) with labelerCanWrite := true, owns := [{ head := sha 'a', upstream := sha '0' }] },
    { testing.listed (member 2 "two" 6) with labelerCanWrite := true }]
  inFlight := [{ stack := alone 0 0, checks := { state := .pending } }]

theorem loads_testing : timed.Loads (clock 60) testing testingSnapshot := by
  refine ⟨[⟨.resolveBranch "main", .ok (sha '0')⟩, ⟨.issues "queue", .ok [1, 2]⟩,
    ⟨.pullRequest 1, .ok (testing.view (member 1 "one" 5))⟩, ⟨.lastLabeled 1 "queue", .ok (5, "alice")⟩,
    ⟨.pullRequest 2, .ok (testing.view (member 2 "two" 6))⟩, ⟨.lastLabeled 2 "queue", .ok (6, "alice")⟩,
    ⟨.canWrite "alice", .ok true⟩, ⟨.statusComment 1 "queue[bot]", .ok (StatusComment.member (alone 0 0) 0 []).comment⟩,
    ⟨.statusComment 2 "queue[bot]", .ok .missing⟩, ⟨.checkRuns (sha 'a'), .ok []⟩], ?_, ?_⟩
  · exact .call (.call (.call (.call (.call (.call (.call (.call (.call (.call (.pure _))))))))))
  · simp only [List.forall_mem_cons]
    exact ⟨rfl, rfl, rfl, rfl, rfl, rfl, rfl, rfl, rfl, rfl, List.forall_mem_nil _⟩

theorem named_testing : timed.Named testing := by
  refine ⟨by decide, by simp [IsRefName, timed], fun number pr hget => ?_⟩
  have hrows : ∀ pr ∈ testing.pulls.rows, pr.baseRef = "main" := by decide
  rw [IsRefName, hrows pr (Table.mem_of_get hget)]
  decide

end Demo

theorem idle_ticks_are_fixed_points_while_testing : ∃ s₂, Demo.timed.Loads (Demo.clock 60) (Demo.timed.applied Demo.testingSnapshot Demo.testing) s₂ ∧
    s₂.queued = Demo.testingSnapshot.queued ∧ s₂.inFlight.map (·.stack) = [Demo.alone 0 0] ∧
    (planTick s₂ Demo.timed.config).actions.filter (!·.isCancel) = [.comment 2 (waitingComment 1 1 [])] := by
  have hidle : ∀ action ∈ (planTick Demo.testingSnapshot Demo.timed.config).actions, action.isIdle = true := by decide
  have hticks : Relation.ReflTransGen (Demo.timed.TicksTo (Demo.clock 60)) Demo.testing (Demo.timed.applied Demo.testingSnapshot Demo.testing) :=
    .single ⟨Demo.testingSnapshot, Demo.loads_testing, ⟨rfl, rfl, rfl, rfl, rfl⟩, rfl⟩
  obtain ⟨⟨s₂, hload⟩, hall⟩ := idle_ticks_are_fixed_points Demo.timed Demo.named_testing Demo.loads_testing hidle hticks
  obtain ⟨-, hqueued, hstacks, -, hactions⟩ := hall s₂ hload
  exact ⟨s₂, hload, hqueued, hstacks, hactions⟩

end MergeQueue

end RunnerYard
