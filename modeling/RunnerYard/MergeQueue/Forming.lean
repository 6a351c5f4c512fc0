import RunnerYard.Interaction.Traces
import RunnerYard.MergeQueue.Tick

/-!
# Forming stacks

`form` and `conflict` of `apply.go` call each other: a group that does not rebase is split, and both halves are formed. Whatever GitHub and git answer, the groups in which this ends are the list cut into pieces, and each piece is pushed as a stack, put off, or one pull request that is rejected.
-/

namespace RunnerYard

namespace MergeQueue

open Interaction

inductive Fate where
  | formed
  | rejected
  | deferred
  deriving DecidableEq, Repr

def chosen (fate : Fate) (groups : List (List Int × Fate)) : List (List Int) := (groups.filter (·.2 = fate)).map (·.1)

/-- Each member was rebased on the one before it, the first one on `tip`. -/
def Rebased (trace : List (Event Call.Ans)) : String → List Member → Prop
  | _, [] => True
  | tip, member :: rest => (∃ upstream head, ⟨.rebase member.number tip upstream head, .ok member.sha⟩ ∈ trace) ∧ Rebased trace member.sha rest

/-- The group was rebased above `base`, and all its branches were pushed. -/
def Pushed (trace : List (Event Call.Ans)) (base : String) (group : List Int) : Prop :=
  ∃ members updates, members.map Member.number = group ∧ Rebased trace base members ∧
    ⟨.pushBranches updates, .ok ()⟩ ∈ trace ∧ updates.map BranchUpdate.sha = members.map Member.sha

/-- The groups in which a list ended: together they are the list, and the report has each of them once. -/
structure Groups (trace : List (Event Call.Ans)) (base : String) (prs : List Int) (report : Report) (groups : List (List Int × Fate)) : Prop where
  all : (groups.map (·.1)).flatten = prs
  formed : report.formed = chosen .formed groups
  rejected : report.rejected = (chosen .rejected groups).flatten
  deferred : report.deferred = chosen .deferred groups
  pushed : ∀ group ∈ chosen .formed groups, Pushed trace base group
  alone : ∀ group ∈ chosen .rejected groups, group.length = 1

section Groups

variable {trace trace' : List (Event Call.Ans)} {base tip : String} {prs prs' : List Int} {report report' : Report}
  {groups groups' : List (List Int × Fate)} {members : List Member}

theorem Rebased.mono (h : Rebased trace tip members) (hsub : trace ⊆ trace') : Rebased trace' tip members := by
  induction members generalizing tip with
  | nil => trivial
  | cons member rest ih =>
    obtain ⟨⟨upstream, head, hmem⟩, hrest⟩ := h
    exact ⟨⟨upstream, head, hsub hmem⟩, ih hrest⟩

theorem Pushed.mono {group : List Int} (h : Pushed trace base group) (hsub : trace ⊆ trace') : Pushed trace' base group := by
  obtain ⟨members, updates, hnumbers, hrebased, hpushed, hshas⟩ := h
  exact ⟨members, updates, hnumbers, hrebased.mono hsub, hsub hpushed, hshas⟩

theorem chosen_append (fate : Fate) (groups groups' : List (List Int × Fate)) :
    chosen fate (groups ++ groups') = chosen fate groups ++ chosen fate groups' := by
  rw [chosen, List.filter_append, List.map_append]
  rfl

theorem Groups.append (h : Groups trace base prs report groups) (h' : Groups trace' base prs' report' groups') (split : List (List Int)) :
    Groups (trace ++ trace') base (prs ++ prs') ({ split } ++ report ++ report') (groups ++ groups') where
  all := by rw [List.map_append, List.flatten_append, h.all, h'.all]
  formed := by
    rw [chosen_append, ← h.formed, ← h'.formed]
    rfl
  rejected := by
    rw [chosen_append, List.flatten_append, ← h.rejected, ← h'.rejected]
    rfl
  deferred := by
    rw [chosen_append, ← h.deferred, ← h'.deferred]
    rfl
  pushed group hgroup := by
    rw [chosen_append, List.mem_append] at hgroup
    rcases hgroup with hfront | hback
    · exact (h.pushed group hfront).mono (List.subset_append_left trace trace')
    · exact (h'.pushed group hback).mono (List.subset_append_right trace trace')
  alone group hgroup := by
    rw [chosen_append, List.mem_append] at hgroup
    rcases hgroup with hfront | hback
    · exact h.alone group hfront
    · exact h'.alone group hback

theorem Groups.mono (h : Groups trace base prs report groups) (hsub : trace ⊆ trace') : Groups trace' base prs report groups :=
  ⟨h.all, h.formed, h.rejected, h.deferred, fun group hgroup => (h.pushed group hgroup).mono hsub, h.alone⟩

theorem groups_deferred (trace : List (Event Call.Ans)) (base : String) (prs : List Int) :
    Groups trace base prs { deferred := [prs] } [(prs, .deferred)] :=
  ⟨List.append_nil prs, rfl, rfl, rfl, fun _ hgroup => absurd hgroup List.not_mem_nil, fun _ hgroup => absurd hgroup List.not_mem_nil⟩

theorem groups_formed (h : Pushed trace base prs) : Groups trace base prs { formed := [prs] } [(prs, .formed)] :=
  ⟨List.append_nil prs, rfl, rfl, rfl, fun _ hgroup => List.mem_singleton.mp hgroup ▸ h, fun _ hgroup => absurd hgroup List.not_mem_nil⟩

theorem groups_rejected (trace : List (Event Call.Ans)) (base : String) (number : Int) :
    Groups trace base [number] { rejected := [number] } [([number], .rejected)] :=
  ⟨rfl, rfl, rfl, rfl, fun _ hgroup => absurd hgroup List.not_mem_nil, fun _ hgroup => List.mem_singleton.mp hgroup ▸ rfl⟩

theorem Groups.perm (h : Groups trace base prs report groups) :
    (report.formed.flatten ++ report.rejected ++ report.deferred.flatten).Perm prs := by
  rw [h.formed, h.rejected, h.deferred, ← h.all, List.perm_iff_count]
  clear h
  intro number
  induction groups with
  | nil => rfl
  | cons entry rest ih =>
    obtain ⟨group, fate⟩ := entry
    cases fate <;> simp [chosen] at ih ⊢ <;> omega

theorem Groups.infix_of_mem (h : Groups trace base prs report groups) {entry : List Int × Fate} (hentry : entry ∈ groups) : entry.1 <:+: prs := by
  rw [← h.all]
  exact List.infix_of_mem_flatten (List.mem_map_of_mem hentry)

end Groups

namespace Queue

variable {q : Queue} {snapshot : Snapshot} {base : String} {trace : List (Event Call.Ans)} {report : Report}

theorem yields_attempt_iff {op : Call} {answer : op.Ans} : Try.Yields (attempt op) trace answer ↔ trace = [⟨op, answer⟩] :=
  Try.yields_lift_iff.trans Prog.yields_perform_iff

variable {prs : List Int}

/-- A conflict is about a pull request of the list; a list that rebases has every member on the one before it. -/
theorem yields_stackUp {building : Building} {built : Built} (h : Try.Yields (stackUp snapshot base prs building) trace built) :
    (∀ number, built = .conflict number → number ∈ prs) ∧
      ∀ building', built = .stacked building' → ∃ members updates, building'.members = building.members ++ members ∧
        building'.updates = building.updates ++ updates ∧ members.map Member.number = prs ∧ Rebased trace building.tip members ∧
        updates.map BranchUpdate.sha = members.map Member.sha := by
  induction prs generalizing building trace with
  | nil =>
    rw [stackUp, Try.yields_pure_iff] at h
    obtain ⟨rfl, rfl⟩ := h
    refine ⟨fun number heq => (nomatch heq), fun building' heq => ?_⟩
    rw [Built.stacked.injEq] at heq
    subst heq
    exact ⟨[], [], (List.append_nil _).symm, (List.append_nil _).symm, rfl, trivial, rfl⟩
  | cons number rest ih =>
    rw [stackUp] at h
    obtain ⟨t₁, t₂, head, rfl, -, hhead⟩ := Try.yields_bind_iff.mp h
    split at hhead
    · rw [Try.yields_pure_iff] at hhead
      rw [hhead.2]
      exact ⟨fun number heq => (nomatch heq), fun building' heq => (nomatch heq)⟩
    · obtain ⟨t₃, t₄, found, rfl, -, hfound⟩ := Try.yields_bind_iff.mp hhead
      obtain ⟨t₅, t₆, answer, rfl, hanswer, hrest⟩ := Try.yields_bind_iff.mp hfound
      rw [yields_attempt_iff] at hanswer
      cases answer with
      | error failure =>
        cases failure with
        | rebaseConflict =>
          rw [Try.yields_pure_iff] at hrest
          rw [hrest.2]
          refine ⟨fun other heq => ?_, fun building' heq => (nomatch heq)⟩
          rw [Built.conflict.injEq] at heq
          exact heq ▸ List.mem_cons_self
        | message text => exact absurd hrest (Try.not_yields_throw _)
        | leaseRejected => exact absurd hrest (Try.not_yields_throw _)
        | notFastForward => exact absurd hrest (Try.not_yields_throw _)
      | ok rebased =>
        obtain ⟨hconflict, hstacked⟩ := ih hrest
        refine ⟨fun other heq => List.mem_cons_of_mem number (hconflict other heq), fun building' heq => ?_⟩
        obtain ⟨members, updates, hmembers, hupdates, hnumbers, hrebased, hshas⟩ := hstacked building' heq
        refine ⟨{ number, sha := rebased } :: members,
          { branch := (queued snapshot number).headRef, sha := rebased, expected := (queued snapshot number).headSHA } :: updates,
          ?_, ?_, ?_, ⟨⟨found.1, head, ?_⟩, ?_⟩, ?_⟩
        · rw [hmembers, List.append_assoc, List.singleton_append]
        · rw [hupdates, List.append_assoc, List.singleton_append]
        · rw [List.map_cons, hnumbers]
        · rw [hanswer]
          simp
        · apply hrebased.mono
          intro event hevent
          simp [hevent]
        · rw [List.map_cons, List.map_cons, hshas]

theorem yields_publish {building : Building} (h : Try.Yields (q.publish snapshot base prs building) trace report) :
    report = { deferred := [prs] } ∨ report = { formed := [prs] } ∧ ⟨.pushBranches building.updates, .ok ()⟩ ∈ trace := by
  rw [publish] at h
  obtain ⟨t₁, t₂, _, rfl, -, hpush⟩ := Try.yields_bind_iff.mp h
  obtain ⟨t₃, t₄, answer, rfl, hanswer, hrest⟩ := Try.yields_bind_iff.mp hpush
  rw [yields_attempt_iff] at hanswer
  cases answer with
  | error failure =>
    cases failure with
    | leaseRejected =>
      rw [postpone, Try.yields_pure_iff] at hrest
      exact Or.inl hrest.2
    | message text => exact absurd hrest (Try.not_yields_throw _)
    | rebaseConflict => exact absurd hrest (Try.not_yields_throw _)
    | notFastForward => exact absurd hrest (Try.not_yields_throw _)
  | ok answer =>
    rw [Try.yields_pure_iff] at hrest
    refine Or.inr ⟨hrest.2, ?_⟩
    rw [hanswer]
    simp

theorem groups_formOr {conflict : List Int → String → Int → Tick Report}
    (hconflict : ∀ number ∈ prs, ∀ trace report, Try.Yields (conflict prs base number) trace report → ∃ groups, Groups trace base prs report groups)
    (h : Try.Yields (q.formOr snapshot conflict prs base) trace report) : ∃ groups, Groups trace base prs report groups := by
  rw [formOr] at h
  obtain ⟨t₁, t₂, _, rfl, -, hopened⟩ := Try.yields_bind_iff.mp h
  obtain ⟨t₃, t₄, target, rfl, -, hfetched⟩ := Try.yields_bind_iff.mp hopened
  split at hfetched
  · rw [postpone, Try.yields_pure_iff] at hfetched
    exact ⟨_, hfetched.2 ▸ groups_deferred _ base prs⟩
  · obtain ⟨t₅, t₆, built, rfl, hbuilt, hrest⟩ := Try.yields_bind_iff.mp hfetched
    obtain ⟨hculprit, hstacked⟩ := yields_stackUp hbuilt
    cases built with
    | postponed =>
      rw [postpone, Try.yields_pure_iff] at hrest
      exact ⟨_, hrest.2 ▸ groups_deferred _ base prs⟩
    | conflict number =>
      obtain ⟨groups, hgroups⟩ := hconflict number (hculprit number rfl) t₆ report hrest
      refine ⟨groups, hgroups.mono fun event hevent => ?_⟩
      simp [hevent]
    | stacked building =>
      rcases yields_publish hrest with rfl | ⟨rfl, hpushed⟩
      · exact ⟨_, groups_deferred _ base prs⟩
      · obtain ⟨members, updates, hmembers, hupdates, hnumbers, hrebased, hshas⟩ := hstacked building rfl
        refine ⟨_, groups_formed ⟨members, building.updates, hnumbers, hrebased.mono fun event hevent => ?_, ?_, ?_⟩⟩
        · simp [hevent]
        · simp [hpushed]
        · rw [hupdates]
          exact hshas

theorem groups_reject {number : Int} {reason : String} {urls : List String} (h : Try.Yields (q.reject snapshot number reason urls) trace report) :
    ∃ groups, Groups trace base [number] report groups := by
  rw [reject] at h
  obtain ⟨t₁, t₂, _, rfl, -, hremoved⟩ := Try.yields_bind_iff.mp h
  obtain ⟨t₃, t₄, _, rfl, -, hpure⟩ := Try.yields_bind_iff.mp hremoved
  rw [Try.yields_pure_iff] at hpure
  exact ⟨_, hpure.2 ▸ groups_rejected _ base number⟩

theorem groups_conflict {fuel : Nat} {culprit : Int} (hculprit : culprit ∈ prs) (hfuel : prs.length ≤ fuel)
    (h : Try.Yields (q.conflict snapshot fuel prs base culprit) trace report) : ∃ groups, Groups trace base prs report groups := by
  induction fuel generalizing prs culprit trace report with
  | zero =>
    have hpositive := List.length_pos_of_mem hculprit
    omega
  | succ fuel ih =>
    rw [conflict] at h
    split at h
    · rename_i hone
      obtain ⟨only, rfl⟩ := List.length_eq_one_iff.mp hone
      obtain rfl := List.mem_singleton.mp hculprit
      exact groups_reject h
    · rename_i hmany
      have hpositive := List.length_pos_of_mem hculprit
      obtain ⟨hwhole, hfront, hback⟩ := split_spec (by omega : 2 ≤ prs.length)
      obtain ⟨t₁, t₂, front, rfl, hformed, hrest⟩ := Try.yields_bind_iff.mp h
      obtain ⟨t₃, t₄, back, rfl, hformed', hpure⟩ := Try.yields_bind_iff.mp hrest
      rw [Try.yields_pure_iff] at hpure
      obtain ⟨groups, hgroups⟩ := groups_formOr (fun number hnumber _ _ => ih hnumber (by omega)) hformed
      obtain ⟨groups', hgroups'⟩ := groups_formOr (fun number hnumber _ _ => ih hnumber (by omega)) hformed'
      rw [hpure.1, hpure.2, List.append_nil]
      have hboth := hgroups.append hgroups' [prs]
      rw [hwhole] at hboth
      exact ⟨groups ++ groups', hboth⟩

theorem groups_form (h : Try.Yields (q.form snapshot prs base) trace report) : ∃ groups, Groups trace base prs report groups :=
  groups_formOr (fun _ hnumber _ _ => groups_conflict hnumber (le_refl prs.length)) h

theorem formOr_fuel (q : Queue) (snapshot : Snapshot) {fuel : Nat} (hprs : 0 < prs.length) (h : prs.length ≤ fuel) (base : String) :
    q.formOr snapshot (q.conflict snapshot fuel) prs base = q.form snapshot prs base := by
  rw [form, formOr, formOr, conflict_fuel q snapshot hprs h (le_refl prs.length)]

theorem form_eq (q : Queue) (snapshot : Snapshot) (prs : List Int) (base : String) :
    q.form snapshot prs base = q.formOr snapshot (fun prs base culprit =>
      if prs.length = 1 then q.reject snapshot culprit "it does not rebase cleanly onto the target" []
      else do
        let front ← q.form snapshot (split prs).1 base
        let back ← q.form snapshot (split prs).2 base
        pure ({ split := [prs] } ++ front ++ back)) prs base := by
  cases prs with
  | nil => rfl
  | cons number rest =>
    have hconflict : ∀ culprit, q.conflict snapshot (number :: rest).length (number :: rest) base culprit =
        if (number :: rest).length = 1 then q.reject snapshot culprit "it does not rebase cleanly onto the target" []
        else (do
          let front ← q.form snapshot (split (number :: rest)).1 base
          let back ← q.form snapshot (split (number :: rest)).2 base
          pure ({ split := [number :: rest] } ++ front ++ back)) := by
      intro culprit
      rw [List.length_cons, conflict, List.length_cons]
      split
      · rfl
      · rename_i hmany
        obtain ⟨-, hfront, hback⟩ := split_spec (by rw [List.length_cons]; omega : 2 ≤ (number :: rest).length)
        rw [List.length_cons] at hfront hback
        rw [formOr_fuel q snapshot hfront.1 (by omega), formOr_fuel q snapshot hback.1 (by omega)]
    rw [form, formOr, formOr]
    simp only [hconflict]

end Queue

/-- Forming comes to an end, and without a failure the list is cut into groups that are each formed, put off or one rejected pull request: none is lost, and none is in two. -/
theorem forming_accounts_for_all (q : Queue) (snapshot : Snapshot) {prs : List Int} (hdistinct : prs.Nodup) (base : String) :
    (q.form snapshot prs base = q.formOr snapshot (fun prs base culprit =>
      if prs.length = 1 then q.reject snapshot culprit "it does not rebase cleanly onto the target" []
      else do
        let front ← q.form snapshot (split prs).1 base
        let back ← q.form snapshot (split prs).2 base
        pure ({ split := [prs] } ++ front ++ back)) prs base) ∧
    ∀ trace report, Try.Yields (q.form snapshot prs base) trace report →
      (∃ groups, Groups trace base prs report groups) ∧
      (report.formed.flatten ++ report.rejected ++ report.deferred.flatten).Perm prs ∧
      (report.formed.flatten ++ report.rejected ++ report.deferred.flatten).Nodup ∧
      ∀ group ∈ report.formed, group <:+: prs ∧ Pushed trace base group := by
  refine ⟨Queue.form_eq q snapshot prs base, fun trace report h => ?_⟩
  obtain ⟨groups, hgroups⟩ := Queue.groups_form h
  refine ⟨⟨groups, hgroups⟩, hgroups.perm, hgroups.perm.nodup_iff.mpr hdistinct, fun group hgroup => ?_⟩
  rw [hgroups.formed] at hgroup
  refine ⟨?_, hgroups.pushed group hgroup⟩
  obtain ⟨entry, hentry, rfl⟩ := List.mem_map.mp hgroup
  exact hgroups.infix_of_mem (List.mem_filter.mp hentry).1

namespace Demo

def former : Queue where
  config := { target := "main", label := "queue", batchSize := 2, requiredChecks := [⟨"ci", []⟩], checkTimeout := 45 * Duration.minute }
  botLogin := "queue[bot]"
  glob := fun _ _ => false

def couple : Snapshot where
  now := unixEpoch
  targetSHA := sha '0'
  queued := [
    { number := 1, headSHA := sha '1', headRef := "one", baseRef := "main", sameRepo := true, draft := false, labeledAt := 1, labeledBy := "alice" },
    { number := 2, headSHA := sha '2', headRef := "two", baseRef := "main", sameRepo := true, draft := false, labeledAt := 2, labeledBy := "alice" }]
  inFlight := []

/-- The second one does not rebase on the first, nor on the target. -/
def clash : List (Event Call.Ans) := [
  ⟨.openGit "main", .ok ()⟩, ⟨.fetch "main", .ok (sha '0')⟩, ⟨.fetch "one", .ok (sha '1')⟩, ⟨.rebase 1 (sha '0') (sha '0') (sha '1'), .ok (sha 'a')⟩,
  ⟨.fetch "two", .ok (sha '2')⟩, ⟨.rebase 2 (sha 'a') (sha '0') (sha '2'), .error .rebaseConflict⟩,
  ⟨.openGit "main", .ok ()⟩, ⟨.fetch "main", .ok (sha '0')⟩, ⟨.fetch "one", .ok (sha '1')⟩, ⟨.rebase 1 (sha '0') (sha '0') (sha '1'), .ok (sha 'b')⟩,
  ⟨.upsertStatusComment 1 "queue[bot]"
    (StatusComment.member { base := sha '0', members := [{ number := 1, sha := sha 'b' }], atTime := unixEpoch } 0 []).comment, .ok ()⟩,
  ⟨.pushBranches [{ branch := "one", sha := sha 'b', expected := sha '1' }], .ok ()⟩,
  ⟨.openGit "main", .ok ()⟩, ⟨.fetch "main", .ok (sha '0')⟩, ⟨.fetch "two", .ok (sha '2')⟩,
  ⟨.rebase 2 (sha '0') (sha '0') (sha '2'), .error .rebaseConflict⟩, ⟨.removeLabel 2 "queue", .ok ()⟩,
  ⟨.upsertStatusComment 2 "queue[bot]" (StatusComment.rejected "it does not rebase cleanly onto the target" "queue" [] []).comment, .ok ()⟩]

theorem yields_clash : Try.Yields (former.form couple [1, 2] (sha '0')) clash { formed := [[1]], rejected := [2], split := [[1, 2]] } :=
  .call (.call (.call (.call (.call (.call (.call (.call (.call (.call (.call (.call (.call (.call (.call (.call (.call (.call (.pure _))))))))))))))))))

end Demo

theorem forming_accounts_for_all_of_clash : [1, 2].Nodup ∧ ([[1]].flatten ++ [2] ++ ([] : List (List Int)).flatten).Perm [1, 2] ∧
    Pushed Demo.clash (Demo.sha '0') [1] := by
  have h := (forming_accounts_for_all Demo.former Demo.couple (by decide) (Demo.sha '0')).2 _ _ Demo.yields_clash
  exact ⟨by decide, h.2.1, (h.2.2.2 [1] List.mem_cons_self).2⟩

end MergeQueue

end RunnerYard
