import RunnerYard.MergeQueue.Books
import RunnerYard.MergeQueue.Reads

/-!
# What a tick knows from its snapshot

The snapshot is put together from many reads, between which others change the repository. What a tick relies on later holds all the same: each part of the snapshot is what one of the reads answered, the heads of pull requests never change their branch, and only the tick itself writes status comments.
-/

namespace RunnerYard

namespace MergeQueue

open Interaction

theorem World.effect_of_isRead {op : Call} (hread : op.isRead = true) {choice : Choice} {w w₁ : World} {answer : op.Ans}
    (h : World.effect op choice w = some (answer, w₁)) : w₁ = w ∧ World.effect op .done w = some (answer, w) := by
  have hwrote := World.wrote_of_effect h
  cases op <;> first
    | exact absurd hread Bool.false_ne_true
    | (cases hwrote
       cases choice <;> first
        | exact ⟨rfl, h⟩
        | (simp only [World.effect, reduceCtorEq] at h))

def LogEntry.isRead : LogEntry → Bool
  | tick _ => false
  | call op _ => op.isRead

theorem LogEntry.isCall_of_isRead {entry : LogEntry} (h : entry.isRead = true) : entry.isCall = true := by
  cases entry with
  | tick now => cases h
  | call op answer => rfl

/-- A live stack is built on the target, with each member queued at its recorded head. -/
theorem Snapshot.Live.fresh {snapshot : Snapshot} {inFlight : InFlight} (h : snapshot.Live inFlight) : inFlight.stack.base = snapshot.targetSHA ∧
    ∀ member ∈ inFlight.stack.members, ∃ pr, lookup snapshot.queued member.number = some pr ∧ pr.headSHA = member.sha := by
  obtain ⟨hlanded, hstale⟩ := h
  rw [Snapshot.stale, hlanded, if_neg Bool.false_ne_true, staleReason_eq_none_iff] at hstale
  exact hstale

namespace Queue

variable {q : Queue} {w w' w'' : World}

/-! ### Rules -/

structure Later (q : Queue) (w w' : World) : Prop where
  drift : q.Drift w w'
  log : ∃ entries, w'.log = entries ++ w.log ∧ ∀ entry ∈ entries, entry.isRead = true

namespace Later

theorem refl (w : World) : q.Later w w := ⟨.refl w, [], rfl, by simp⟩

theorem trans (h : q.Later w w') (h' : q.Later w' w'') : q.Later w w'' := by
  obtain ⟨hdrift, entries, hlog, hread⟩ := h
  obtain ⟨hdrift', entries', hlog', hread'⟩ := h'
  refine ⟨hdrift.trans hdrift', entries' ++ entries, by rw [hlog', hlog, List.append_assoc], fun entry hentry => ?_⟩
  rcases List.mem_append.mp hentry with hentry | hentry
  · exact hread' entry hentry
  · exact hread entry hentry

end Later

theorem safe_call {op : Call} {post : op.Val → World → Prop} (hguard : q.Guard op w)
    (hpost : ∀ v w₁ w₂ (choice : Choice), choice.Ok → World.outcome op choice w = some (.ok v, w₁) → w₂.log = .call op (.ok v) :: w₁.log →
      q.Drift w₁ w₂ → q.Books w₂ → post v w₂) : Try.Safe (q.logic) (call op) post w := by
  refine ⟨hguard, fun answer w' hstep w₂ hrely => ?_⟩
  obtain ⟨choice, hchoice, hexec⟩ := hstep
  obtain ⟨w₁, houtcome, rfl⟩ := World.exec_cases hexec
  obtain ⟨hlog, hdrift, hbooks⟩ := hrely
  rintro v rfl
  exact hpost v w₁ w₂ choice hchoice houtcome hlog ⟨hdrift.said, hdrift.known, hdrift.reaches, hdrift.pulls⟩ hbooks

theorem safe_attempt {op : Call} {post : op.Ans → World → Prop} (hguard : q.Guard op w)
    (hpost : ∀ answer w₁ w₂ (choice : Choice), choice.Ok → World.outcome op choice w = some (answer, w₁) → w₂.log = .call op answer :: w₁.log →
      q.Drift w₁ w₂ → q.Books w₂ → post answer w₂) : Try.Safe (q.logic) (attempt op) post w := by
  refine Try.safe_lift ⟨hguard, fun answer w' hstep w₂ hrely => ?_⟩
  obtain ⟨choice, hchoice, hexec⟩ := hstep
  obtain ⟨w₁, houtcome, rfl⟩ := World.exec_cases hexec
  obtain ⟨hlog, hdrift, hbooks⟩ := hrely
  exact hpost answer w₁ w₂ choice hchoice houtcome hlog
    ⟨hdrift.said, hdrift.known, hdrift.reaches, hdrift.pulls⟩ hbooks

theorem guard_of_isRead {op : Call} (hread : op.isRead = true) (w : World) : q.Guard op w := by
  cases op <;> first
    | exact absurd hread Bool.false_ne_true
    | trivial

theorem eq_of_isRead {op : Call} (hread : op.isRead = true) {choice : Choice} {w w₁ : World} {answer : op.Ans}
    (h : World.outcome op choice w = some (answer, w₁)) : w₁ = w := by
  have hwrote := World.wrote_of_outcome h
  cases op <;> first
    | exact absurd hread Bool.false_ne_true
    | (cases hwrote; rfl)

/-! ### What a read says -/

structure Grown (w w' : World) : Prop where
  known : ∀ sha, w.commits.Knows sha → w'.commits.Knows sha
  pulls : ∀ number pr, w.pulls.get number = some pr → ∃ pr', w'.pulls.get number = some pr' ∧ pr'.headRef = pr.headRef ∧ pr'.sameRepo = pr.sameRepo

theorem Grown.trans (h : Grown w w') (h' : Grown w' w'') : Grown w w'' where
  known sha hsha := h'.known sha (h.known sha hsha)
  pulls number pr hget := by
    obtain ⟨pr', hget', href', hsame'⟩ := h.pulls number pr hget
    obtain ⟨pr'', hget'', href'', hsame''⟩ := h'.pulls number pr' hget'
    exact ⟨pr'', hget'', href''.trans href', hsame''.trans hsame'⟩

theorem Drift.grown (h : q.Drift w w') : Grown w w' := ⟨h.known, h.pulls⟩

structure Seen (w : World) (pr : PR) : Prop where
  pull : ∃ pull, w.pulls.get pr.number = some pull ∧ pull.headRef = pr.headRef ∧ pull.sameRepo = pr.sameRepo
  number : 0 < pr.number ∧ Text.FitsInt64 pr.number
  head : pr.sameRepo = true → pr.headRef ≠ pr.baseRef
  base : Plain pr.baseRef
  known : pr.sameRepo = true → pr.headSHA ≠ "" → w.commits.Knows pr.headSHA

theorem Seen.grown {pr : PR} (h : Seen w pr) (hgrown : Grown w w') : Seen w' pr where
  pull := by
    obtain ⟨pull, hget, href, hrepo⟩ := h.pull
    obtain ⟨pull', hget', href', hrepo'⟩ := hgrown.pulls _ pull hget
    exact ⟨pull', hget', href'.trans href, hrepo'.trans hrepo⟩
  number := h.number
  head := h.head
  base := h.base
  known hrepo hhead := hgrown.known _ (h.known hrepo hhead)

theorem seen_view (hbooks : q.Books w) {number : Int} {pull : PullRequest} (hget : w.pulls.get number = some pull) :
    (w.view pull).number = number ∧ Seen w (w.view pull) := by
  have hnumber : pull.number = number := Table.key_of_get hget
  obtain ⟨hfits, hhead, hbase⟩ := hbooks.pulls number pull hget
  refine ⟨hnumber, ⟨pull, ?_, rfl, rfl⟩, hfits, hhead, hbase, fun hrepo hne => ?_⟩
  · rw [show (w.view pull).number = number from hnumber]
    exact hget
  · have hrepo' : pull.sameRepo = true := hrepo
    simp only [World.view, World.head, hrepo', if_true] at hne ⊢
    cases hbranch : w.branches pull.headRef with
    | none => simp [hbranch] at hne
    | some sha => exact hbooks.heads _ _ hbranch

def Fact (q : Queue) (w : World) : Event Call.Ans → Prop
  | ⟨.resolveBranch _, .ok sha⟩ => w.commits.Knows sha
  | ⟨.issues _, .ok numbers⟩ => numbers.Nodup
  | ⟨.pullRequest number, .ok pr⟩ => pr.number = number ∧ Seen w pr
  | ⟨.statusComment number login, .ok comment⟩ => login = q.botLogin → comment = w.said q.botLogin number
  | ⟨.checkRuns _, .ok runs⟩ => ∀ run ∈ runs, Plain run.url
  | _ => True

theorem fact_of_answer {op : Call} {v : op.Val} (hbooks : q.Books w) (h : World.effect op .done w = some (.ok v, w)) : q.Fact w ⟨op, .ok v⟩ := by
  have hfound : ∀ {α : Type} {o : Option α} {a : α}, World.found o = .ok a → o = some a := by
    intro α o a heq
    cases o with
    | none => cases heq
    | some b => exact congrArg some (Except.ok.inj heq)
  cases op <;> simp only [Fact, World.effect, Option.some.injEq, Prod.mk.injEq, and_true] at h ⊢
  case resolveBranch branch =>
    exact hbooks.heads branch v (hfound h)
  case issues label =>
    rw [Except.ok.injEq] at h
    subst h
    exact w.pulls.nodup.sublist (List.filter_sublist.map _)
  case pullRequest number =>
    obtain ⟨pull, hget, rfl⟩ := Option.map_eq_some_iff.mp (hfound h)
    exact seen_view hbooks hget
  case statusComment number login =>
    rintro rfl
    exact (Except.ok.inj h).symm
  case checkRuns sha => exact Except.ok.inj h ▸ hbooks.urls sha

theorem Fact.later {event : Event Call.Ans} (h : q.Fact w event) (hlater : q.Later w w') : q.Fact w' event := by
  have hdrift := hlater.drift
  unfold Fact at h ⊢
  split at h
  · exact hdrift.known _ h
  · exact h
  · exact ⟨h.1, h.2.grown hdrift.grown⟩
  · exact fun heq => (h heq).trans (hdrift.said _).symm
  · exact h
  · trivial

structure Found (q : Queue) (w : World) (event : Event Call.Ans) : Prop where
  logged : LogEntry.call event.1 event.2 ∈ thisTick w.log
  fact : q.Fact w event

theorem Found.later {event : Event Call.Ans} (h : q.Found w event) (hlater : q.Later w w') : q.Found w' event := by
  refine ⟨?_, h.fact.later hlater⟩
  obtain ⟨entries, hlog, hread⟩ := hlater.log
  rw [hlog, thisTick_append fun entry hentry => LogEntry.isCall_of_isRead (hread entry hentry)]
  exact List.mem_append_right _ h.logged

theorem safe_loadSnapshot (hbot : q.botLogin ≠ "") (hbooks : q.Books w) (now : Int) : Try.Safe (q.logic) (q.loadSnapshot now)
    (fun snapshot w' => q.Books w' ∧ q.Later w w' ∧ ∃ numbers entries, q.LoadedAs (q.Found w') now snapshot numbers entries) w := by
  have hguard : ∀ op w₁, op.isRead = true → (q.Books w₁ ∧ q.Later w w₁) → (q.logic).guard op w₁ := fun op w₁ hread _ =>
    guard_of_isRead hread w₁
  have hstep : ∀ op w₁ answer w₂ w₃, op.isRead = true → (q.Books w₁ ∧ q.Later w w₁) → (q.logic).step op w₁ answer w₂ →
      (q.logic).rely w₂ w₃ → (q.Books w₃ ∧ q.Later w w₃) ∧ q.Found w₃ ⟨op, answer⟩ ∧
        ∀ event, q.Found w₁ event → q.Found w₃ event := by
    rintro op w₁ answer w₂ w₃ hread ⟨hbooks₁, hlater₁⟩ ⟨choice, -, hexec⟩ ⟨hlog, hdrift, hbooks₃⟩
    obtain ⟨w₀, houtcome, rfl⟩ := World.exec_cases hexec
    obtain rfl : w₀ = w₁ := eq_of_isRead hread houtcome
    have hlater : q.Later w₀ w₃ := ⟨⟨hdrift.said, hdrift.known, hdrift.reaches, hdrift.pulls⟩, [_], hlog,
      fun entry hentry => List.mem_singleton.mp hentry ▸ hread⟩
    refine ⟨⟨hbooks₃, hlater₁.trans hlater⟩, ⟨?_, ?_⟩, fun event hevent => hevent.later hlater⟩
    · rw [hlog, World.record, thisTick, List.takeWhile_cons_of_pos rfl]
      exact List.mem_cons_self
    · cases answer with
      | error failure => cases op <;> trivial
      | ok v => exact (fact_of_answer hbooks₁ (World.effect_of_isRead hread (World.effect_of_outcome houtcome)).2).later hlater
  refine (Try.safe_gives (fun event w' => q.Found w' event) hguard hstep (readsOnly_loadSnapshot now) ⟨hbooks, .refl w⟩).mono fun snapshot w' hw' => ?_
  exact ⟨hw'.1.1, hw'.1.2, loadedAs_of_loadSnapshot hbot hw'.2⟩

/-! ### What the tick knows -/

structure Loaded (q : Queue) (snapshot : Snapshot) (w : World) : Prop where
  target : w.commits.Knows snapshot.targetSHA
  queued : ∀ pr ∈ snapshot.queued, Seen w pr.toPR ∧ ∀ own ∈ pr.owns, own.Valid
  distinct : (snapshot.queued.map (·.number)).Nodup
  flights : ∀ inFlight ∈ snapshot.inFlight, q.StackOk w inFlight.stack
  failing : ∀ inFlight ∈ snapshot.inFlight, ∀ name ∈ inFlight.checks.failing, ∃ check ∈ q.config.requiredChecks, check.name = name
  urls : ∀ inFlight ∈ snapshot.inFlight, ∀ url ∈ inFlight.checks.urls, Plain url
  tested : ∀ inFlight ∈ snapshot.inFlight, snapshot.ready inFlight = true → q.Tested inFlight.stack w.log

section Loaded

variable {now : Int} {snapshot : Snapshot} {numbers : List Int} {entries : List (QueuedPR × Comment)} {inFlight : InFlight}

theorem ReadAs.seen {number : Int} {pr : PR} (h : q.ReadAs (q.Found w) number pr) :
    pr.number = number ∧ Seen w pr ∧ ∃ answer : PR, Answered w.log (.pullRequest number) answer ∧ answer.headSHA = pr.headSHA := by
  obtain ⟨answer, hanswer, heq⟩ := h.pull
  obtain ⟨hnumber, hpull, hfits, hhead, hbase, hknown⟩ := hanswer.fact
  rw [heq]
  exact ⟨hnumber, ⟨hpull, hfits, hhead, hbase, hknown⟩, answer, hanswer.logged, rfl⟩

namespace LoadedAs

variable (h : q.LoadedAs (q.Found w) now snapshot numbers entries)

include h

theorem exists_readAs {pr : QueuedPR} (hpr : pr ∈ snapshot.queued) : pr.number ∈ numbers ∧ q.ReadAs (q.Found w) pr.number pr.toPR := by
  obtain ⟨prs, hread, hperm⟩ := h.read
  have hmem : pr.toPR ∈ prs := hperm.mem_iff.mpr (List.mem_map_of_mem hpr)
  obtain ⟨i, hi, heq⟩ := List.getElem_of_mem hmem
  have hi' : i < numbers.length := hread.length_eq ▸ hi
  have hthis := hread.get hi' hi
  simp only [List.get_eq_getElem, heq] at hthis
  have hnumber : pr.number = numbers[i] := hthis.seen.1
  rw [hnumber]
  exact ⟨List.getElem_mem hi', hthis⟩

theorem numbers_perm : (snapshot.queued.map (·.number)).Perm numbers := by
  obtain ⟨prs, hread, hperm⟩ := h.read
  have hnumbers : prs.map (·.number) = numbers := by
    clear h hperm
    induction hread with
    | nil => rfl
    | cons hfirst _ ih => rw [List.map_cons, ih, hfirst.seen.1]
  have hmap := (hperm.map (·.number)).symm
  rw [hnumbers, List.map_map] at hmap
  exact hmap

theorem distinct : (snapshot.queued.map (·.number)).Nodup := h.numbers_perm.nodup_iff.mpr h.listed.fact

theorem reading_eq {entry : QueuedPR × Comment} (hentry : entry ∈ entries) : entry.2.reading = q.reading w entry.1.number := by
  rw [reading, ← (h.commented entry hentry).comment.fact rfl]

theorem recorded (hmem : inFlight ∈ snapshot.inFlight) :
    q.Recorded w inFlight.stack.top.number inFlight.stack ∧ ∃ entry ∈ entries, entry.1.number = inFlight.stack.top.number := by
  have hmarked : inFlight.stack ∈ entries.filterMap marker := h.marked ▸ List.mem_map_of_mem hmem
  obtain ⟨entry, hentry, hmarker⟩ := List.mem_filterMap.mp hmarked
  obtain ⟨hstack, htop⟩ := Option.filter_eq_some_iff.mp hmarker
  have htop' : inFlight.stack.top.number = entry.1.number := by simpa using htop
  rw [h.reading_eq hentry, ← htop'] at hstack
  exact ⟨⟨hstack, rfl⟩, entry, hentry, htop'.symm⟩

theorem tested (hmem : inFlight ∈ snapshot.inFlight) (hok : q.StackOk w inFlight.stack) (hready : snapshot.ready inFlight = true) :
    q.Tested inFlight.stack w.log := by
  simp only [Snapshot.ready, Bool.and_eq_true, beq_iff_eq] at hready
  obtain ⟨⟨hlanded, -⟩, hsuccess⟩ := hready
  cases h.flown inFlight hmem with
  | isTarget _ _ htrue _ => simp [htrue] at hlanded
  | compared _ _ hchecks => simp [hchecks] at hsuccess
  | stale _ _ _ hchecks => simp [hchecks] at hsuccess
  | checked hbase hfresh _ files runs hread =>
    obtain ⟨hchanged, hran, hchecks⟩ := hread
    obtain ⟨hrecorded, entry, hentry, htop⟩ := h.recorded hmem
    refine ⟨?_, ⟨entry.2, ?_, ?_⟩, fun member hmember => ?_, ?_⟩
    · rw [hbase]
      exact h.target.logged
    · rw [← htop]
      exact (h.commented entry hentry).comment.logged
    · have hreading := hrecorded.1
      rw [← htop, ← h.reading_eq hentry, entry.2.reads] at hreading
      exact hreading
    · obtain ⟨pr, hlookup, hhead⟩ := (staleReason_eq_none_iff.mp hfresh).2 member hmember
      obtain ⟨hpr, hnumber⟩ := mem_of_lookup hlookup
      obtain ⟨hlisted, hreadAs⟩ := h.exists_readAs hpr
      obtain ⟨-, -, answer, hanswer, hsha⟩ := hreadAs.seen
      rw [hnumber] at hlisted hanswer
      exact ⟨numbers, answer, h.listed.logged, hlisted, hanswer, hsha.trans hhead⟩
    · rw [hchecks] at hsuccess
      have hpassed := passed_of_evaluate_success hsuccess
      by_cases hneeds : needsFiles q.config.requiredChecks = true
      · obtain ⟨changed, rfl, hanswers⟩ := changed_of_changedFiles hchanged hneeds hok.1.distinct
        exact ⟨runs, changed, hran.logged, fun _ member hmember => (hanswers member.number (List.mem_map_of_mem hmember)).logged, hpassed⟩
      · -- no check looks at the files
        refine ⟨runs, fun _ => [], hran.logged, fun htrue => absurd htrue hneeds, fun check hcheck _ => hpassed check hcheck ?_⟩
        simp only [needsFiles, List.any_eq_true, not_exists, not_and, Bool.not_eq_true', Bool.not_eq_false] at hneeds
        simp [applicable, hneeds check hcheck]

theorem loaded (hbooks : q.Books w) : q.Loaded snapshot w where
  target := h.target.fact
  queued pr hpr := by
    refine ⟨(h.exists_readAs hpr).2.seen.2.1, fun own hown => ?_⟩
    rw [h.queued] at hpr
    obtain ⟨entry, hentry, rfl⟩ := List.mem_map.mp hpr
    rw [(h.commented entry hentry).owns, h.reading_eq hentry] at hown
    exact hbooks.owns _ own hown
  distinct := h.distinct
  flights inFlight hmem := hbooks.recorded _ _ (h.recorded hmem).1.1
  failing inFlight hmem name hname := by
    cases h.flown inFlight hmem with
    | isTarget _ _ _ hchecks => simp [hchecks] at hname
    | compared _ _ hchecks => simp [hchecks] at hname
    | stale _ _ _ hchecks => simp [hchecks] at hname
    | checked _ _ _ files runs hread =>
      rw [hread.checks] at hname
      exact (texts_evaluate _ _ _ _ _ _).1 name hname
  urls inFlight hmem url hurl := by
    cases h.flown inFlight hmem with
    | isTarget _ _ _ hchecks => simp [hchecks] at hurl
    | compared _ _ hchecks => simp [hchecks] at hurl
    | stale _ _ _ hchecks => simp [hchecks] at hurl
    | checked _ _ _ files runs hread =>
      rw [hread.checks] at hurl
      obtain ⟨run, hrun, rfl⟩ := (texts_evaluate _ _ _ _ _ _).2 url hurl
      exact hread.ran.fact run hrun
  tested inFlight hmem := h.tested hmem (hbooks.recorded _ _ (h.recorded hmem).1.1)

end LoadedAs

theorem Loaded.known (h : q.Loaded snapshot w) (hmem : inFlight ∈ snapshot.inFlight) (hlive : snapshot.Live inFlight) :
    ∀ member ∈ inFlight.stack.members, w.commits.Knows member.sha := by
  intro member hmember
  obtain ⟨pr, hlookup, hhead⟩ := hlive.fresh.2 member hmember
  obtain ⟨hpr, hnumber⟩ := mem_of_lookup hlookup
  obtain ⟨⟨pull, hget, href, hrepo⟩, -, -, -, hknown⟩ := (h.queued pr hpr).1
  obtain ⟨pull', hget', hsame, -⟩ := (h.flights inFlight hmem).2 member hmember
  rw [hnumber, hget'] at hget
  obtain rfl := Option.some.inj hget
  have hsha : IsSHA member.sha := ((h.flights inFlight hmem).1.members member hmember).2.2
  rw [← hhead] at hsha ⊢
  refine hknown (hrepo ▸ hsame) fun hempty => ?_
  rw [hempty] at hsha
  exact absurd hsha.1 (by decide)

end Loaded

end Queue

end MergeQueue

end RunnerYard
