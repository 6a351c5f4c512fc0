import RunnerYard.MergeQueue.Load

/-!
# What a tick does

Each step of a plan, judged under the terms of the books: every comment that it writes is well formed, every commit that it pushes is known and goes to the branch of a pull request, and the target goes to a tested commit only.
-/

namespace RunnerYard

namespace MergeQueue

open Interaction

/-! ### Texts -/

structure Queue.PlainTexts (q : Queue) : Prop where
  label : Plain q.config.label
  target : Plain q.config.target
  checks : ∀ check ∈ q.config.requiredChecks, Plain check.name

theorem plain_ineligibleReason {pr : QueuedPR} {config : Config} {reason : String} (hbase : Plain pr.baseRef) (htarget : Plain config.target)
    (hlabel : Plain config.label) (h : ineligibleReason pr config = some reason) : Plain reason := by
  have htick : '`' ∉ markerPrefix.toList := by decide
  unfold ineligibleReason at h
  split at h
  · cases h
    exact plain_of_not_mem (by decide)
  · split at h
    · cases h
      exact plain_of_not_mem (by decide)
    · split at h
      · cases h
        simp only [String.append_assoc]
        refine plain_append (by decide) (plain_append_head hbase ?_ htick (head?_append_literal (by decide)))
        refine plain_append (by decide) (plain_append_head htarget ?_ htick (by decide))
        exact plain_of_not_mem (by decide)
      · split at h
        · cases h
          rw [String.append_assoc]
          refine plain_append (by decide) (plain_append_head hlabel ?_ htick (by decide))
          exact plain_of_not_mem (by decide)
        · cases h

theorem plain_staleReason {stack : Stack} {targetSHA : String} {queued : List QueuedPR} {reason : String}
    (h : staleReason stack targetSHA queued = some reason) : Plain reason := by
  apply plain_of_not_mem
  unfold staleReason at h
  split at h
  · cases h
    decide
  · obtain ⟨member, -, hmember⟩ := List.exists_of_findSome?_eq_some h
    unfold memberStale at hmember
    split at hmember
    · cases hmember
      simp only [String.toList_append, List.mem_append, not_or]
      exact ⟨⟨by decide, lt_not_mem_itoa _⟩, by decide⟩
    · split at hmember
      · cases hmember
        simp only [String.toList_append, List.mem_append, not_or]
        exact ⟨⟨by decide, lt_not_mem_itoa _⟩, by decide⟩
      · cases hmember

theorem plain_marked {snapshot : Snapshot} {inFlight : InFlight} {reason : String} (h : (inFlight, some reason) ∈ snapshot.marked) : Plain reason := by
  have hstale : ∀ {reason}, snapshot.stale inFlight = some reason → Plain reason := by
    intro reason hreason
    unfold Snapshot.stale at hreason
    split at hreason
    · cases hreason
    · exact plain_staleReason hreason
  obtain ⟨i, hi, heq⟩ := List.mem_mapIdx.mp h
  split at heq
  · split at heq
    · rw [Prod.mk.injEq, Option.some.injEq] at heq
      rw [← heq.2]
      apply plain_of_not_mem
      simp only [String.toList_append, List.mem_append, not_or]
      exact ⟨⟨by decide, not_mem_refs _⟩, by decide⟩
    · rw [Prod.mk.injEq] at heq
      exact hstale (heq.1 ▸ heq.2)
  · rw [Prod.mk.injEq] at heq
    exact hstale (heq.1 ▸ heq.2)

theorem unix_ofUnix (seconds : Int) : unix (ofUnix seconds) = seconds := by
  unfold unix ofUnix
  rw [show unixEpoch + seconds * Duration.second - unixEpoch = seconds * Duration.second by omega]
  exact Int.mul_ediv_cancel _ (by decide)

theorem unix_truncateSecond (t : Int) : unix (truncateSecond t) = unix t := by
  unfold unix truncateSecond unixEpoch
  rw [← Int.sub_mul, Int.mul_ediv_cancel _ (by decide), Int.sub_mul_ediv_right _ _ (by decide)]

theorem Stack.Valid.seconds {stack : Stack} (h : stack.Valid) : stack.seconds.Valid where
  base := h.base
  nonempty := h.nonempty
  members := h.members
  distinct := h.distinct
  retry := h.retry
  atTime := by
    rw [Stack.seconds, unix_ofUnix]
    exact h.atTime

/-! ### Steps -/

namespace World

variable {w w₁ : World} {op : Call} {choice : Choice}

theorem log_of_wrote (h : Wrote w op choice w₁) : w₁.log = w.log := by
  cases h with
  | pushed updates hleased => exact (foldl_pushBranch updates w).2.2.2.2.1
  | _ => rfl

end World

namespace Queue

variable {q : Queue} {snapshot : Snapshot} {w w₁ w' w'' : World}

theorem grown_of_wrote {op : Call} {choice : Choice} (hwrote : World.Wrote w op choice w₁) (hguard : q.Guard op w) : Grown w w₁ := by
  cases hwrote with
  | comment number login comment => exact ⟨fun _ => id, fun _ pr hget => ⟨pr, hget, rfl, rfl⟩⟩
  | moved branch sha => exact ⟨fun _ => id, fun _ pr hget => ⟨pr, hget, rfl, rfl⟩⟩
  | nothing => exact (@Drift.refl q w).grown
  | unlabeled number label => exact (drift_of_wrote (@World.Wrote.unlabeled w number label choice) hguard (by simp) (by simp)).grown
  | rebased number onto upstream head added => exact (drift_of_wrote (.rebased number onto upstream head added) hguard (by simp) (by simp)).grown
  | pushed updates hleased => exact (drift_of_wrote (@World.Wrote.pushed w updates choice hleased) hguard (by simp) (by simp)).grown

variable {stack : Stack} {number : Int} {prs : List Int}

theorem StackOk.grown (h : q.StackOk w stack) (hgrown : Grown w w') : q.StackOk w' stack := by
  refine ⟨h.1, fun member hmember => ?_⟩
  obtain ⟨pr, hget, hrepo, hne⟩ := h.2 member hmember
  obtain ⟨pr', hget', href, hsame⟩ := hgrown.pulls _ pr hget
  exact ⟨pr', hget', hsame.trans hrepo, href ▸ hne⟩

theorem Loaded.grown (h : q.Loaded snapshot w) (hgrown : Grown w w') {entries : List LogEntry} (hlog : w'.log = entries ++ w.log)
    (hcalls : ∀ entry ∈ entries, entry.isCall = true) : q.Loaded snapshot w' where
  target := hgrown.known _ h.target
  queued pr hpr := ⟨(h.queued pr hpr).1.grown hgrown, (h.queued pr hpr).2⟩
  distinct := h.distinct
  flights inFlight hmem := (h.flights inFlight hmem).grown hgrown
  failing := h.failing
  urls := h.urls
  tested inFlight hmem hready := by
    rw [hlog]
    exact (h.tested inFlight hmem hready).append hcalls

structure Acting (q : Queue) (snapshot : Snapshot) (w : World) : Prop where
  books : q.Books w
  loaded : q.Loaded snapshot w
  time : 0 ≤ unix snapshot.now ∧ Text.FitsInt64 (unix snapshot.now)

theorem Acting.step {op : Call} {choice : Choice} {answer : op.Ans} (h : q.Acting snapshot w) (hguard : q.Guard op w)
    (houtcome : World.outcome op choice w = some (answer, w₁)) (hlog : w'.log = .call op answer :: w₁.log) (hdrift : q.Drift w₁ w') (hbooks : q.Books w') :
    Grown w w' ∧ q.Acting snapshot w' := by
  have hwrote := World.wrote_of_outcome houtcome
  have hgrown : Grown w w' := (grown_of_wrote hwrote hguard).trans hdrift.grown
  rw [World.log_of_wrote hwrote] at hlog
  exact ⟨hgrown, hbooks, h.loaded.grown hgrown (show w'.log = [.call op answer] ++ w.log from hlog) (by simp [LogEntry.isCall]), h.time⟩

/-! ### Parts of a tick -/

/-- The judgment for a part of a tick: its calls meet their guards, and what the tick knows it still knows. -/
def Acts (q : Queue) (snapshot : Snapshot) {α : Type} (p : Tick α) (post : α → World → Prop) (w : World) : Prop :=
  q.Acting snapshot w → Try.Safe q.logic p (fun a w' => q.Acting snapshot w' ∧ Grown w w' ∧ post a w') w

section Acts

variable {α β : Type} {p : Tick α} {post : α → World → Prop}

theorem Grown.refl (w : World) : Grown w w := ⟨fun _ => id, fun _ pr hget => ⟨pr, hget, rfl, rfl⟩⟩

theorem acts_pure {a : α} (h : post a w) : q.Acts snapshot (pure a) post w := fun hacting => Try.safe_pure ⟨hacting, .refl w, h⟩

theorem acts_throw (failure : Failure) : q.Acts snapshot (throw failure : Tick α) post w := fun _ => Try.safe_throw failure

theorem Acts.bind {f : α → Tick β} {post' : β → World → Prop} (h : q.Acts snapshot p post w)
    (hf : ∀ a w', q.Acting snapshot w' → Grown w w' → post a w' → q.Acts snapshot (f a) post' w') : q.Acts snapshot (p >>= f) post' w := by
  intro hacting
  refine (h hacting).bind fun a w' hw' => ?_
  obtain ⟨hacting', hgrown, hpost⟩ := hw'
  refine (hf a w' hacting' hgrown hpost hacting').mono fun b w'' hw'' => ?_
  obtain ⟨hacting'', hgrown', hpost'⟩ := hw''
  exact ⟨hacting'', hgrown.trans hgrown', hpost'⟩

theorem Acts.mono {post' : α → World → Prop} (h : q.Acts snapshot p post w) (hpost : ∀ a w', Grown w w' → post a w' → post' a w') :
    q.Acts snapshot p post' w := by
  intro hacting
  refine (h hacting).mono fun a w' hw' => ?_
  obtain ⟨hacting', hgrown, ha⟩ := hw'
  exact ⟨hacting', hgrown, hpost a w' hgrown ha⟩

theorem acts_attempt {op : Call} {post : op.Ans → World → Prop} (hguard : q.Guard op w)
    (hpost : ∀ answer w₁ w' choice, World.outcome op choice w = some (answer, w₁) → q.Drift w₁ w' → post answer w') : q.Acts snapshot (attempt op) post w := by
  intro hacting
  refine safe_attempt hguard fun answer w₁ w' choice _ houtcome hlog hdrift hbooks => ?_
  obtain ⟨hgrown, hacting'⟩ := hacting.step hguard houtcome hlog hdrift hbooks
  exact ⟨hacting', hgrown, hpost answer w₁ w' choice houtcome hdrift⟩

theorem acts_call {op : Call} (hguard : q.Guard op w) : q.Acts snapshot (call op) (fun _ _ => True) w := by
  intro hacting
  refine safe_call hguard fun v w₁ w' choice _ houtcome hlog hdrift hbooks => ?_
  obtain ⟨hgrown, hacting'⟩ := hacting.step hguard houtcome hlog hdrift hbooks
  exact ⟨hacting', hgrown, trivial⟩

theorem acts_forM {f : β → Tick PUnit} (inv : List β → Prop) (hbody : ∀ x rest w, inv (x :: rest) → q.Acts snapshot (f x) (fun _ _ => inv rest) w)
    {l : List β} (h : inv l) : q.Acts snapshot (l.forM f) (fun _ _ => True) w := by
  induction l generalizing w with
  | nil => exact acts_pure trivial
  | cons x rest ih => exact (hbody x rest w h).bind fun _ w' _ _ hrest => ih hrest

end Acts

/-! ### Comments -/

theorem acts_comment {c : StatusComment} (hvalid : c.Valid) (hmark : ∀ stack, c.stack? = some stack → q.StackOk w stack.seconds) :
    q.Acts snapshot (q.comment number c.comment) (fun _ _ => True) w := by
  have hreading := StatusComment.reading_comment hvalid
  refine acts_call ⟨rfl, fun own hown => ?_, fun stack hstack => ?_⟩
  · rw [hreading] at hown
    exact StatusComment.valid_owns hvalid own (List.mem_of_mem_take hown)
  · rw [hreading, StatusComment.said, Option.map_eq_some_iff] at hstack
    obtain ⟨written, hwritten, rfl⟩ := hstack
    exact hmark written hwritten

theorem acts_plain_comment {c : StatusComment} (hvalid : c.Valid) (hnone : c.stack? = none) :
    q.Acts snapshot (q.comment number c.comment) (fun _ _ => True) w := by
  refine acts_comment hvalid fun stack hstack => ?_
  rw [hnone] at hstack
  cases hstack

theorem suffix_zipIdx {α : Type} {l : List α} {x : α × Nat} {rest : List (α × Nat)} (h : x :: rest <:+ l.zipIdx) :
    l[x.2]? = some x.1 ∧ x.2 + 1 + rest.length = l.length := by
  obtain ⟨before, hbefore⟩ := h
  have hlength := congrArg List.length hbefore
  have hget : l.zipIdx[before.length]? = some x := by simp [← hbefore]
  rw [List.getElem?_zipIdx, Option.map_eq_some_iff] at hget
  obtain ⟨a, ha, rfl⟩ := hget
  simp only [List.length_append, List.length_cons, List.length_zipIdx] at hlength
  simp only [Nat.zero_add]
  exact ⟨ha, by omega⟩

theorem acts_commentStack {keep : Nat → List Own} (h : q.StackOk w stack) (hkeep : ∀ i, ∀ own ∈ keep i, own.Valid) :
    q.Acts snapshot (q.commentStack stack keep) (fun _ _ => True) w := by
  have hloop : ∀ (rest : List (Member × Nat)) (w' : World), rest <:+ stack.members.zipIdx → q.StackOk w' stack →
      q.Acts snapshot (rest.forM fun entry => q.comment entry.1.number (StatusComment.member stack entry.2 (keep entry.2)).comment) (fun _ _ => True) w' := by
    intro rest
    induction rest with
    | nil => exact fun _ _ _ => acts_pure trivial
    | cons entry rest ih =>
      intro w' hsuffix hok
      obtain ⟨hindex, -⟩ := List.getElem?_eq_some_iff.mp (suffix_zipIdx hsuffix).1
      have hvalid : (StatusComment.member stack entry.2 (keep entry.2)).Valid := ⟨hok.1, hindex, hkeep entry.2⟩
      refine (acts_comment hvalid fun written hwritten => ?_).bind fun _ w'' _ hgrown _ => ih w'' ((List.suffix_cons entry rest).trans hsuffix) (hok.grown hgrown)
      rw [StatusComment.stack?] at hwritten
      split at hwritten
      · obtain rfl := Option.some.inj hwritten
        exact ⟨hok.1.seconds, hok.2⟩
      · cases hwritten
  exact hloop _ w List.suffix_rfl h

/-! ### Forming a stack -/

theorem acts_read {op : Call} (hread : op.isRead = true) : q.Acts snapshot (call op) (fun _ _ => True) w := acts_call (guard_of_isRead hread w)

theorem acts_attempt_read {op : Call} (hread : op.isRead = true) : q.Acts snapshot (attempt op) (fun _ _ => True) w :=
  acts_attempt (guard_of_isRead hread w) fun _ _ _ _ _ _ => trivial

theorem acts_upstream (headSHA base : String) (owns : List Own) : q.Acts snapshot (upstream headSHA base owns) (fun found _ => found.2 ⊆ owns) w := by
  induction owns generalizing w with
  | nil => exact acts_pure (List.Subset.refl _)
  | cons own rest ih =>
    have hskip : ∀ {w'}, q.Acts snapshot (upstream headSHA base rest) (fun found _ => found.2 ⊆ own :: rest) w' :=
      ih.mono fun found _ _ hfound => List.subset_cons_of_subset own hfound
    refine (acts_attempt_read rfl).bind fun headOK w' _ _ _ => ?_
    split
    · refine (acts_attempt_read rfl).bind fun upstreamOK w'' _ _ _ => ?_
      split
      · exact acts_pure (List.cons_subset.mpr ⟨List.mem_cons_self, List.nil_subset _⟩)
      · exact hskip
    · exact hskip

def Formable (q : Queue) (snapshot : Snapshot) (number : Int) : Prop :=
  ∃ pr, lookup snapshot.queued number = some pr ∧ pr.sameRepo = true ∧ pr.headRef ≠ q.config.target

theorem Formable.eligible (h : q.Formable snapshot number) (hloaded : q.Loaded snapshot w) :
    q.Eligible w number ∧ 0 < number ∧ Text.FitsInt64 number := by
  obtain ⟨pr, hlookup, hrepo, hne⟩ := h
  obtain ⟨hpr, rfl⟩ := mem_of_lookup hlookup
  obtain ⟨⟨pull, hget, href, hsame⟩, hfits, -, -, -⟩ := (hloaded.queued pr hpr).1
  exact ⟨⟨pull, hget, hsame.trans hrepo, href ▸ hne⟩, hfits⟩

structure Stacked (q : Queue) (w : World) (done : List Int) (building : Building) : Prop where
  tip : w.commits.Knows building.tip
  numbers : building.members.map Member.number = done
  known : ∀ member ∈ building.members, w.commits.Knows member.sha
  updates : ∀ u ∈ building.updates, u.branch ≠ q.config.target ∧ w.commits.Knows u.sha
  keeps : ∀ keep ∈ building.keeps, ∀ own ∈ keep, own.Valid

theorem Stacked.grown {done : List Int} {building : Building} (h : q.Stacked w done building) (hgrown : Grown w w') : q.Stacked w' done building where
  tip := hgrown.known _ h.tip
  numbers := h.numbers
  known member hmember := hgrown.known _ (h.known member hmember)
  updates u hu := ⟨(h.updates u hu).1, hgrown.known _ (h.updates u hu).2⟩
  keeps := h.keeps

theorem acts_rebase {onto base head : String} (honto : w.commits.Knows onto) :
    q.Acts snapshot (attempt (.rebase number onto base head)) (fun answer w' => ∀ rebased, answer = .ok rebased → w'.commits.Knows rebased) w := by
  refine acts_attempt honto fun answer w₁ w' choice houtcome hdrift => ?_
  rintro rebased rfl
  have heffect := World.effect_of_outcome houtcome
  cases choice <;> simp only [World.effect, Option.some.injEq, Prod.mk.injEq, reduceCtorEq, false_and, Except.ok.injEq] at heffect
  obtain ⟨rfl, rfl⟩ := heffect
  exact hdrift.known _ (Ancestry.History.knows_tip honto)

theorem acts_stackUp {base : String} {done : List Int} {building : Building} (hprs : ∀ number ∈ prs, q.Formable snapshot number)
    (h : q.Stacked w done building) :
    q.Acts snapshot (stackUp snapshot base prs building) (fun built w' =>
      (∀ culprit, built = .conflict culprit → culprit ∈ prs) ∧ ∀ building', built = .stacked building' → q.Stacked w' (done ++ prs) building') w := by
  induction prs generalizing w done building with
  | nil =>
    refine acts_pure ⟨fun culprit heq => (by cases heq), fun building' heq => ?_⟩
    obtain rfl := Built.stacked.inj heq
    rw [List.append_nil]
    exact h
  | cons number rest ih =>
    obtain ⟨pr, hlookup, hrepo, hne⟩ := hprs number List.mem_cons_self
    have hqueued : queued snapshot number = pr := by rw [queued, hlookup, Option.getD_some]
    rw [stackUp, hqueued]
    refine (acts_read rfl).bind fun head w₁ _ hgrown₁ _ => ?_
    split
    · exact acts_pure ⟨fun culprit heq => (by cases heq), fun building' heq => by cases heq⟩
    refine (acts_upstream pr.headSHA base pr.owns).bind fun found w₂ hacting₂ hgrown₂ howns => ?_
    have h₂ := h.grown (hgrown₁.trans hgrown₂)
    refine (acts_rebase h₂.tip).bind fun answer w₃ _ hgrown₃ hrebased => ?_
    have h₃ := h₂.grown hgrown₃
    split
    · refine acts_pure ⟨fun culprit heq => ?_, fun building' heq => by cases heq⟩
      exact Built.conflict.inj heq ▸ List.mem_cons_self
    · exact acts_throw _
    · rename_i rebased
      have hknown := hrebased rebased rfl
      have hnext : q.Stacked w₃ (done ++ [number]) {
          tip := rebased
          members := building.members ++ [{ number, sha := rebased }]
          updates := building.updates ++ [{ branch := pr.headRef, sha := rebased, expected := pr.headSHA }]
          keeps := building.keeps ++ [found.2] } := by
        refine ⟨hknown, by rw [List.map_append, h.numbers]; rfl, ?_, ?_, ?_⟩
        · exact List.forall_mem_append.mpr ⟨h₃.known, fun member hmember => List.mem_singleton.mp hmember ▸ hknown⟩
        · exact List.forall_mem_append.mpr ⟨h₃.updates, fun u hu => List.mem_singleton.mp hu ▸ ⟨hne, hknown⟩⟩
        · refine List.forall_mem_append.mpr ⟨h₃.keeps, fun keep hkeep own hown => ?_⟩
          rw [List.mem_singleton.mp hkeep] at hown
          exact (hacting₂.loaded.queued pr (mem_of_lookup hlookup).1).2 own (howns hown)
      refine (ih (fun n hn => hprs n (List.mem_cons_of_mem _ hn)) hnext).mono fun built w₄ _ hbuilt => ?_
      obtain ⟨hculprit, hstacked⟩ := hbuilt
      refine ⟨fun culprit heq => List.mem_cons_of_mem _ (hculprit culprit heq), fun building' heq => ?_⟩
      rw [← List.singleton_append, ← List.append_assoc]
      exact hstacked building' heq

theorem Loaded.valid_owns (h : q.Loaded snapshot w) (number : Int) : ∀ own ∈ (Queue.queued snapshot number).owns, own.Valid := by
  intro own hown
  rw [Queue.queued] at hown
  cases hlookup : lookup snapshot.queued number with
  | none =>
    rw [hlookup] at hown
    cases hown
  | some pr =>
    rw [hlookup] at hown
    exact (h.queued pr (mem_of_lookup hlookup).1).2 own hown

structure Group (q : Queue) (snapshot : Snapshot) (prs : List Int) : Prop where
  nonempty : prs ≠ []
  distinct : prs.Nodup
  formable : ∀ number ∈ prs, q.Formable snapshot number

theorem Group.part {part : List Int} (h : q.Group snapshot prs) (hpart : part.Sublist prs) (hne : part ≠ []) : q.Group snapshot part :=
  ⟨hne, h.distinct.sublist hpart, fun number hnumber => h.formable number (hpart.subset hnumber)⟩

theorem acts_publish {building : Building} (hgroup : q.Group snapshot prs) (h : q.Stacked w prs building) :
    q.Acts snapshot (q.publish snapshot snapshot.targetSHA prs building) (fun _ _ => True) w := by
  intro hacting
  set stack : Stack := { base := snapshot.targetSHA, members := building.members, atTime := snapshot.now } with hstack
  have hmembers : ∀ member ∈ building.members, member.number ∈ prs := fun member hmember => h.numbers ▸ List.mem_map_of_mem hmember
  have hne : building.members ≠ [] := by
    intro hnil
    have hnumbers := h.numbers
    rw [hnil, List.map_nil] at hnumbers
    exact hgroup.nonempty hnumbers.symm
  have hvalid : stack.Valid := by
    refine ⟨hacting.books.shas _ hacting.loaded.target, hne, fun member hmember => ?_, ?_, Or.inl rfl, hacting.time⟩
    · obtain ⟨-, hpositive, hfits⟩ := (hgroup.formable _ (hmembers member hmember)).eligible hacting.loaded
      exact ⟨hpositive, hfits, hacting.books.shas _ (h.known member hmember)⟩
    · rw [Stack.numbers, h.numbers]
      exact hgroup.distinct
  have hok : q.StackOk w stack := ⟨hvalid, fun member hmember => ((hgroup.formable _ (hmembers member hmember)).eligible hacting.loaded).1⟩
  have hkeep : ∀ i, ∀ own ∈ building.keeps.getD i [], own.Valid := by
    intro i own hown
    rw [List.getD_eq_getElem?_getD] at hown
    cases hget : building.keeps[i]? with
    | none => simp [hget] at hown
    | some keep =>
      rw [hget, Option.getD_some] at hown
      exact h.keeps keep (List.mem_of_getElem? hget) own hown
  refine Acts.bind (acts_commentStack hok hkeep) (fun _ w' _ hgrown _ => ?_) hacting
  refine Acts.bind (acts_attempt (fun u hu => ⟨(h.updates u hu).1, hgrown.known _ (h.updates u hu).2⟩) fun _ _ _ _ _ _ => trivial) fun answer w'' _ _ _ => ?_
  split
  · exact acts_pure trivial
  · exact acts_throw _
  · exact acts_pure trivial

theorem acts_formOr {conflict : List Int → String → Int → Tick Report} (hgroup : q.Group snapshot prs)
    (hconflict : ∀ culprit ∈ prs, ∀ w', q.Acts snapshot (conflict prs snapshot.targetSHA culprit) (fun _ _ => True) w') :
    q.Acts snapshot (q.formOr snapshot conflict prs snapshot.targetSHA) (fun _ _ => True) w := by
  refine (acts_read rfl).bind fun _ w₁ _ _ _ => ?_
  refine (acts_read rfl).bind fun target w₂ hacting₂ _ _ => ?_
  split
  · exact acts_pure trivial
  have hempty : q.Stacked w₂ [] { tip := snapshot.targetSHA } := ⟨hacting₂.loaded.target, rfl, by simp, by simp, by simp⟩
  refine (acts_stackUp hgroup.formable hempty).bind fun built w₃ _ _ hbuilt => ?_
  obtain ⟨hculprit, hstacked⟩ := hbuilt
  cases built with
  | postponed => exact acts_pure trivial
  | conflict culprit => exact hconflict culprit (hculprit culprit rfl) w₃
  | stacked building => exact acts_publish hgroup (hstacked building rfl)

theorem acts_reject {reason : String} {urls : List String} (htexts : q.PlainTexts) (hreason : Plain reason) (hurls : ∀ url ∈ urls, Plain url) :
    q.Acts snapshot (q.reject snapshot number reason urls) (fun _ _ => True) w := by
  refine Acts.bind (acts_call trivial) fun _ w' hacting _ _ => ?_
  have hvalid : (StatusComment.rejected reason q.config.label urls (queued snapshot number).owns).Valid :=
    ⟨hreason, htexts.label, hurls, hacting.loaded.valid_owns number⟩
  exact (acts_plain_comment hvalid rfl).bind fun _ _ _ _ _ => acts_pure trivial

theorem acts_conflict (htexts : q.PlainTexts) {fuel : Nat} {culprit : Int} (hgroup : q.Group snapshot prs) :
    q.Acts snapshot (q.conflict snapshot fuel prs snapshot.targetSHA culprit) (fun _ _ => True) w := by
  have hrefuse : ∀ {culprit w}, q.Acts snapshot (q.reject snapshot culprit "it does not rebase cleanly onto the target" []) (fun _ _ => True) w :=
    acts_reject htexts (plain_of_not_mem (by decide)) (by simp)
  induction fuel generalizing w prs culprit with
  | zero => exact hrefuse
  | succ fuel ih =>
    rw [conflict]
    split
    · exact hrefuse
    rename_i hlength
    have hpositive := List.length_pos_of_ne_nil hgroup.nonempty
    obtain ⟨happend, hfront, hback⟩ := @split_spec prs (by omega)
    have hfrontSub : (split prs).1.Sublist prs := by
      conv_rhs => rw [← happend]
      exact List.sublist_append_left _ _
    have hbackSub : (split prs).2.Sublist prs := by
      conv_rhs => rw [← happend]
      exact List.sublist_append_right _ _
    have hfrontGroup := hgroup.part hfrontSub (List.length_pos_iff.mp hfront.1)
    have hbackGroup := hgroup.part hbackSub (List.length_pos_iff.mp hback.1)
    refine (acts_formOr hfrontGroup fun _ _ _ => ih hfrontGroup).bind fun front w₁ _ _ _ => ?_
    exact (acts_formOr hbackGroup fun _ _ _ => ih hbackGroup).bind fun back w₂ _ _ _ => acts_pure trivial

/-! ### The other actions -/

theorem acts_cancel (runIDs : List Int) : q.Acts snapshot (cancel runIDs) (fun _ _ => True) w :=
  acts_forM (fun _ => True) (fun _ _ _ _ => (acts_attempt_read rfl).bind fun _ _ _ _ _ => acts_pure trivial) trivial

theorem acts_cancelPullRequestRuns (sha : String) : q.Acts snapshot (cancelPullRequestRuns sha) (fun _ _ => True) w := by
  refine (acts_attempt_read rfl).bind fun answer w' _ _ _ => ?_
  split
  · exact acts_pure trivial
  · exact acts_cancel _

theorem acts_landed (hvalid : stack.Valid) : q.Acts snapshot (q.landed stack) (fun _ _ => True) w := by
  refine Acts.bind (acts_forM (· <:+ stack.members.zipIdx) (fun entry rest w' hsuffix => ?_) List.suffix_rfl) fun _ _ _ _ _ => acts_pure trivial
  obtain ⟨hindex, -⟩ := List.getElem?_eq_some_iff.mp (suffix_zipIdx hsuffix).1
  have hcomment : (StatusComment.landed stack entry.2).Valid := ⟨hvalid, hindex⟩
  exact (acts_plain_comment hcomment rfl).mono fun _ _ _ _ => (List.suffix_cons entry rest).trans hsuffix

theorem acts_advance {inFlight : InFlight} (hmem : inFlight ∈ snapshot.inFlight) (hready : snapshot.ready inFlight = true) :
    q.Acts snapshot (q.advance snapshot inFlight.stack) (fun _ _ => True) w := by
  have hlive : snapshot.Live inFlight := by
    simp only [Snapshot.ready, Bool.and_eq_true, Bool.not_eq_true', Option.isNone_iff_eq_none] at hready
    exact hready.1
  refine (acts_read rfl).bind fun _ w₁ _ _ _ => ?_
  refine (acts_read rfl).bind fun head w₂ hacting _ _ => ?_
  split
  · exact acts_pure trivial
  have hvalid := (hacting.loaded.flights inFlight hmem).1
  have hguard : q.Guard (.fastForward q.config.target inFlight.stack.top.sha) w₂ :=
    ⟨rfl, hacting.loaded.known hmem hlive _ (Stack.top_mem hvalid.nonempty), inFlight.stack, rfl, hacting.loaded.tested inFlight hmem hready⟩
  refine Acts.bind (acts_attempt hguard fun _ _ _ _ _ _ => trivial) fun answer w₃ _ _ _ => ?_
  split
  · exact acts_pure trivial
  · exact acts_throw _
  · exact acts_landed hvalid

theorem acts_retry {inFlight : InFlight} {runIDs : List Int} (hmem : inFlight ∈ snapshot.inFlight) :
    q.Acts snapshot (q.retry snapshot { inFlight.stack with retry := 1, atTime := truncateSecond snapshot.now } runIDs) (fun _ _ => True) w := by
  refine Acts.bind (acts_forM (fun _ => True) (fun _ _ _ _ => ?_) trivial) fun _ w₁ hacting _ _ => ?_
  · exact (acts_attempt_read rfl).bind fun _ _ _ _ _ => acts_pure trivial
  have hok := hacting.loaded.flights inFlight hmem
  have hvalid : ({ inFlight.stack with retry := 1, atTime := truncateSecond snapshot.now } : Stack).Valid := by
    refine ⟨hok.1.base, hok.1.nonempty, hok.1.members, hok.1.distinct, Or.inr rfl, ?_⟩
    rw [unix_truncateSecond]
    exact hacting.time
  refine (acts_commentStack ⟨hvalid, hok.2⟩ fun i own hown => ?_).bind fun _ _ _ _ _ => acts_pure trivial
  exact hacting.loaded.valid_owns _ own (List.mem_of_find?_eq_some (Option.mem_toList.mp hown))

theorem acts_abandon {reason : String} (hreason : Plain reason) :
    q.Acts snapshot (q.abandon snapshot stack prs reason) (fun _ _ => True) w := by
  refine (acts_cancelPullRequestRuns stack.top.sha).bind fun _ w₁ _ _ _ => ?_
  refine Acts.bind (acts_forM (fun _ => True) (fun number rest w' _ => ?_) trivial) fun _ _ _ _ _ => acts_pure trivial
  split
  · exact acts_pure trivial
  · rename_i pr hlookup
    intro hacting
    exact acts_plain_comment ⟨hreason, (hacting.loaded.queued pr (mem_of_lookup hlookup).1).2⟩ rfl hacting

end Queue

end MergeQueue

end RunnerYard
