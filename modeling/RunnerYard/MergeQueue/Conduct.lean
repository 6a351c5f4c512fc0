import RunnerYard.MergeQueue.Apply

/-!
# The conduct of a queue

A plan carried out action by action. Each action meets its terms, so a tick keeps the books, and every run of ticks does.
-/

namespace RunnerYard

namespace MergeQueue

open Interaction

/-! ### What the actions of a plan are about -/

namespace Snapshot

inductive Resolves (snapshot : Snapshot) (inFlight : InFlight) : Action → Prop
  | landed (hlanded : inFlight.landed = true) : Resolves snapshot inFlight (.landed inFlight.stack)
  | abandon (prs : List Int) (reason : String) (hreason : Plain reason) : Resolves snapshot inFlight (.abandon inFlight.stack prs reason)
  | cancel (runIDs : List Int) : Resolves snapshot inFlight (.cancel inFlight.stack runIDs)
  | advance (hready : snapshot.ready inFlight = true) : Resolves snapshot inFlight (.advance inFlight.stack)
  | retry (runIDs : List Int) (reason : String) :
      Resolves snapshot inFlight (.retry { inFlight.stack with retry := 1, atTime := truncateSecond snapshot.now } runIDs reason)
  | reject (number : Int) :
      Resolves snapshot inFlight (.reject inFlight.stack number ("required checks failed: " ++ Text.join ", " inFlight.checks.failing) inFlight.checks.urls)
  | split (reason : String) : Resolves snapshot inFlight (.split inFlight.stack reason)
  | form (prs : List Int) (hlive : snapshot.Live inFlight) (hne : prs ≠ []) (hprs : prs.Sublist inFlight.stack.numbers) :
      Resolves snapshot inFlight (.form prs inFlight.stack.base)

variable {snapshot : Snapshot} {inFlight : InFlight} {stale : Option String} {action : Action} {config : Config}

theorem resolves_of_failureActions (hlive : snapshot.Live inFlight) (hne : inFlight.stack.members ≠ []) (h : action ∈ failureActions snapshot inFlight) :
    snapshot.Resolves inFlight action := by
  unfold failureActions at h
  dsimp only at h
  split at h
  · obtain rfl := List.mem_singleton.mp h
    exact .retry _ _
  split at h
  · obtain rfl := List.mem_singleton.mp h
    exact .reject _
  rename_i hlength
  have hpositive := List.length_pos_of_ne_nil hne
  obtain ⟨happend, hfront, hback⟩ := @Queue.split_spec inFlight.stack.numbers (by rw [Stack.numbers, List.length_map]; omega)
  simp only [List.mem_cons, List.not_mem_nil, or_false] at h
  rcases h with rfl | rfl | rfl
  · exact .split _
  · refine .form _ hlive (List.length_pos_iff.mp hfront.1) ?_
    conv_rhs => rw [← happend]
    exact List.sublist_append_left _ _
  · refine .form _ hlive (List.length_pos_iff.mp hback.1) ?_
    conv_rhs => rw [← happend]
    exact List.sublist_append_right _ _

theorem resolves_of_mem (hentry : (inFlight, stale) ∈ snapshot.marked) (hne : inFlight.stack.members ≠ []) (h : action ∈ snapshot.resolve (inFlight, stale)) :
    snapshot.Resolves inFlight action := by
  obtain ⟨-, hstale⟩ := mem_marked hentry
  unfold resolve at h
  dsimp only at h
  split at h
  · rename_i hlanded
    obtain rfl := List.mem_singleton.mp h
    exact .landed hlanded
  rename_i hlanded
  rw [Bool.not_eq_true] at hlanded
  cases stale with
  | some reason =>
    obtain rfl := List.mem_singleton.mp h
    exact .abandon _ reason (plain_marked hentry)
  | none =>
    have hlive : snapshot.Live inFlight := ⟨hlanded, hstale rfl⟩
    dsimp only at h
    split at h
    · split at h
      · cases h
      · obtain rfl := List.mem_singleton.mp h
        exact .cancel _
    · rename_i hsuccess
      obtain rfl := List.mem_singleton.mp h
      refine .advance ?_
      simp [ready, hlanded, hstale rfl, hsuccess]
    · exact resolves_of_failureActions hlive hne h

end Snapshot

namespace Queue

variable {q : Queue} {snapshot : Snapshot} {w w' : World} {action : Action}

/-! ### The terms of an action -/

theorem Loaded.formable (h : q.Loaded snapshot w) {inFlight : InFlight} (hmem : inFlight ∈ snapshot.inFlight) (hlive : snapshot.Live inFlight) :
    ∀ number ∈ inFlight.stack.numbers, q.Formable snapshot number := by
  intro number hnumber
  obtain ⟨member, hmember, rfl⟩ := List.mem_map.mp hnumber
  obtain ⟨pr, hlookup, -⟩ := hlive.fresh.2 member hmember
  obtain ⟨hpr, heq⟩ := mem_of_lookup hlookup
  obtain ⟨pull, hget, href, hrepo⟩ := (h.queued pr hpr).1.pull
  obtain ⟨pull', hget', hsame, hne⟩ := (h.flights inFlight hmem).2 member hmember
  rw [heq, hget'] at hget
  obtain rfl := Option.some.inj hget
  exact ⟨pr, hlookup, hrepo ▸ hsame, href ▸ hne⟩

theorem Loaded.formable_next (h : q.Loaded snapshot w) : ∀ number ∈ (snapshot.next q.config).map (·.number), q.Formable snapshot number := by
  intro number hnumber
  obtain ⟨pr, hpr, rfl⟩ := List.mem_map.mp hnumber
  have hcandidate : pr ∈ snapshot.candidates q.config := by
    unfold Snapshot.next at hpr
    split at hpr
    · split at hpr
      · exact hpr
      · exact List.mem_of_mem_take hpr
    · cases hpr
  obtain ⟨hfree, hreason⟩ := List.mem_filter.mp hcandidate
  have hqueued := (List.mem_filter.mp hfree).1
  obtain ⟨hrepo, hbase⟩ : pr.sameRepo = true ∧ pr.baseRef = q.config.target := by
    unfold ineligibleReason at hreason
    split at hreason
    · cases hreason
    split at hreason
    · cases hreason
    split at hreason
    · cases hreason
    rename_i hrepo _ hbase
    exact ⟨by simpa using hrepo, not_not.mp hbase⟩
  exact ⟨pr, lookup_of_mem h.distinct hqueued, hrepo, hbase ▸ (h.queued pr hqueued).1.head hrepo⟩

theorem sublist_next (snapshot : Snapshot) (config : Config) : (snapshot.next config).Sublist snapshot.queued := by
  have hcandidates : (snapshot.candidates config).Sublist snapshot.queued := List.filter_sublist.trans List.filter_sublist
  unfold Snapshot.next
  split
  · split
    · exact hcandidates
    · exact (List.take_sublist _ _).trans hcandidates
  · exact List.nil_sublist _

theorem Loaded.valid_comments (h : q.Loaded snapshot w) (htexts : q.PlainTexts) (haction : action ∈ snapshot.comments q.config) :
    ∃ number, ∃ c : StatusComment, action = .comment number c.body ∧ c.Valid ∧ c.stack? = none := by
  have hfree : ∀ pr ∈ snapshot.free, pr ∈ snapshot.queued := fun pr hpr => (List.mem_filter.mp hpr).1
  rcases List.mem_append.mp haction with hrefused | hwaiting
  · obtain ⟨pr, hpr, heq⟩ := List.mem_filterMap.mp hrefused
    obtain ⟨reason, hreason, rfl⟩ := Option.map_eq_some_iff.mp heq
    obtain ⟨hseen, howns⟩ := h.queued pr (hfree pr hpr)
    exact ⟨pr.number, .ineligible reason q.config.label pr.owns, rfl,
      ⟨plain_ineligibleReason hseen.base htexts.target htexts.label hreason, htexts.label, howns⟩, rfl⟩
  · obtain ⟨i, hi, rfl⟩ := List.mem_mapIdx.mp hwaiting
    have hmem : (snapshot.waiting q.config)[i] ∈ snapshot.candidates q.config := List.mem_of_mem_drop (List.getElem_mem hi)
    obtain ⟨-, howns⟩ := h.queued _ (hfree _ (List.mem_filter.mp hmem).1)
    exact ⟨_, .waiting (i + 1) (snapshot.waiting q.config).length _, rfl, howns, rfl⟩

/-! ### Applying a plan -/

theorem acts_form (htexts : q.PlainTexts) {prs : List Int} (hgroup : q.Group snapshot prs) :
    q.Acts snapshot (q.form snapshot prs snapshot.targetSHA) (fun _ _ => True) w :=
  acts_formOr hgroup fun _ _ _ => acts_conflict htexts hgroup

theorem acts_apply (htexts : q.PlainTexts) (haction : action ∈ (planTick snapshot q.config).actions) :
    q.Acts snapshot (q.apply snapshot action) (fun _ _ => True) w := by
  intro hacting
  have hloaded := hacting.loaded
  rcases mem_planTick haction with ⟨⟨inFlight, stale⟩, hentry, hresolve⟩ | hcomment | ⟨-, hnext, rfl⟩
  · have hmem := (Snapshot.mem_marked hentry).1
    have hok := hloaded.flights inFlight hmem
    cases Snapshot.resolves_of_mem hentry hok.1.nonempty hresolve with
    | landed hlanded => exact acts_landed hok.1 hacting
    | abandon prs reason hreason => exact acts_abandon hreason hacting
    | cancel runIDs => exact Acts.bind (acts_cancel runIDs) (fun _ _ _ _ _ => acts_pure trivial) hacting
    | advance hready => exact acts_advance hmem hready hacting
    | retry runIDs reason => exact acts_retry hmem hacting
    | reject number =>
      refine acts_reject htexts (plain_append (by decide) (plain_join rfl (by decide) (by decide) fun name hname => ?_)) (hloaded.urls inFlight hmem) hacting
      obtain ⟨check, hcheck, rfl⟩ := hloaded.failing inFlight hmem name hname
      exact htexts.checks check hcheck
    | split reason => exact acts_pure trivial hacting
    | form prs hlive hne hprs =>
      have hform := @acts_form q snapshot w htexts prs
        ⟨hne, hok.1.distinct.sublist hprs, fun number hnumber => hloaded.formable hmem hlive number (hprs.subset hnumber)⟩
      rw [← hlive.fresh.1] at hform
      exact hform hacting
  · obtain ⟨number, c, rfl, hvalid, hmark⟩ := hloaded.valid_comments htexts hcomment
    rw [apply, StatusComment.ofText_body]
    exact Acts.bind (acts_plain_comment hvalid hmark) (fun _ _ _ _ _ => acts_pure trivial) hacting
  · refine acts_form htexts ⟨by simpa using hnext, ?_, hloaded.formable_next⟩ hacting
    exact hloaded.distinct.sublist ((sublist_next snapshot q.config).map _)

theorem safe_applyPlan (htexts : q.PlainTexts) (h : q.Acting snapshot w) :
    Try.Safe q.logic (q.applyPlan snapshot (planTick snapshot q.config)) (fun _ w' => q.Acting snapshot w') w := by
  refine (Try.safe_foldlM (fun rest _ w' => q.Acting snapshot w' ∧ rest ⊆ (planTick snapshot q.config).actions) (fun report action rest w₁ hw₁ => ?_)
    ⟨h, List.Subset.refl _⟩).mono fun _ w' hw' => hw'.1
  obtain ⟨hacting, hsubset⟩ := hw₁
  obtain ⟨haction, hsubset'⟩ := List.cons_subset.mp hsubset
  exact (acts_apply htexts haction hacting).bind fun done w₂ hw₂ => Try.safe_pure ⟨hw₂.1, hsubset'⟩

theorem safe_tick (htexts : q.PlainTexts) {now : Int} (htime : 0 ≤ unix now ∧ Text.FitsInt64 (unix now)) (hbooks : q.Books w) :
    Try.Safe q.logic (q.tick now) (fun _ _ => True) w := by
  unfold tick
  split
  · exact Try.safe_throw _
  rename_i hbot
  refine (safe_loadSnapshot hbot hbooks now).bind fun snapshot w₁ hw₁ => ?_
  obtain ⟨hbooks₁, -, numbers, entries, hloaded⟩ := hw₁
  refine Try.Safe.bind (M := fun _ w₂ => q.Acting snapshot w₂) (safe_call trivial ?_) fun _ w₂ hw₂ => ?_
  · intro v w₀ w₂ choice _ houtcome hlog hdrift hbooks₂
    have hwrote := World.wrote_of_outcome houtcome
    cases hwrote
    exact ⟨hbooks₂, (hloaded.loaded hbooks₁).grown hdrift.grown (show w₂.log = [_] ++ w₁.log from hlog) (by simp [LogEntry.isCall]), hloaded.time ▸ htime⟩
  · exact (safe_applyPlan htexts hw₂).mono fun _ _ _ => trivial

theorem outline (htexts : q.PlainTexts) : Process.Outline q.process q.Lawful q.logic q.Books where
  refl w hbooks := ⟨rfl, .refl w, hbooks⟩
  trans w₁ w₂ w₃ _ h h' := ⟨h'.1.trans h.1, h.2.1.trans h'.2.1, h'.2.2⟩
  change c change hbooks hok := hbooks.change hok
  move c choice op next answer w' hbooks hrunning hguard hok hexec := by
    have hchoice : choice.Ok := by
      rintro added rfl
      exact hok
    exact ⟨⟨choice, hchoice, hexec⟩, hbooks.exec hguard hchoice hexec⟩
  start c now hbooks hok :=
    ⟨hbooks.record _, fun w hrely => Prog.Safe.mono (safe_tick htexts hok hrely.2.2) fun _ _ _ => trivial⟩

end Queue

end MergeQueue

end RunnerYard
