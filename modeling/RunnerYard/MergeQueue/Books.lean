import RunnerYard.MergeQueue.GitHub

/-!
# The books of the queue

What the queue can rely on when it reads its own comments: every stack that a marker records is well formed, and its members were once eligible, so that none of their branches is the target. This holds whatever others do to the repository.
-/

namespace RunnerYard

namespace MergeQueue

open Interaction

/-! ### The log -/

def LogEntry.isCall : LogEntry → Bool
  | tick _ => false
  | call _ _ => true

def thisTick (log : List LogEntry) : List LogEntry := log.takeWhile LogEntry.isCall

def Answered (log : List LogEntry) (op : Call) (answer : op.Val) : Prop := .call op (.ok answer) ∈ thisTick log

section Log

variable {entries log : List LogEntry}

theorem thisTick_append (h : ∀ entry ∈ entries, entry.isCall = true) : thisTick (entries ++ log) = entries ++ thisTick log := by
  induction entries with
  | nil => rfl
  | cons entry rest ih =>
    rw [List.cons_append, thisTick, List.takeWhile_cons, if_pos (h entry List.mem_cons_self), List.cons_append, ← ih]
    · rfl
    · exact fun e he => h e (List.mem_cons_of_mem _ he)

theorem Answered.append {op : Call} {answer : op.Val} (h : Answered log op answer) (hcalls : ∀ entry ∈ entries, entry.isCall = true) :
    Answered (entries ++ log) op answer := by
  rw [Answered, thisTick_append hcalls]
  exact List.mem_append_right _ h

end Log

/-! ### Effects -/

namespace World

variable {w w₁ : World} {op : Call} {choice : Choice} {answer : op.Ans}

inductive Wrote (w : World) : Call → Choice → World → Prop
  | nothing {op : Call} {choice : Choice} : Wrote w op choice w
  | comment (number : Int) (login : String) (comment : Comment) {choice : Choice} :
      Wrote w (.upsertStatusComment number login comment) choice (w.setComment login number comment)
  | unlabeled (number : Int) (label : String) {choice : Choice} : Wrote w (.removeLabel number label) choice (w.removeLabel number)
  | rebased (number : Int) (onto upstream head : String) (added : List String) :
      Wrote w (.rebase number onto upstream head) (.rebased added)
        { w with commits := w.commits.extend onto added, made := added.map (number, ·) ++ w.made }
  | pushed (updates : List BranchUpdate) {choice : Choice} (hleased : w.leased updates = true) :
      Wrote w (.pushBranches updates) choice (updates.foldl (fun w u => w.pushBranch u) w)
  | moved (branch sha : String) {choice : Choice} (hforward : (w.branches branch).all (w.commits.reaches · sha) = true) :
      Wrote w (.fastForward branch sha) choice ((w.setBranch branch sha).host sha)

theorem wrote_of_effect (h : effect op choice w = some (answer, w₁)) : Wrote w op choice w₁ := by
  cases op
  case upsertStatusComment number login comment =>
    cases choice <;> simp only [effect, Option.some.injEq, Prod.mk.injEq, reduceCtorEq] at h
    obtain ⟨-, rfl⟩ := h
    exact .comment number login comment
  case removeLabel number label =>
    cases choice <;> simp only [effect, Option.some.injEq, Prod.mk.injEq, reduceCtorEq] at h
    obtain ⟨-, rfl⟩ := h
    exact .unlabeled number label
  case rebase number onto upstream head =>
    cases choice <;> simp only [effect, Option.some.injEq, Prod.mk.injEq, reduceCtorEq] at h
    · obtain ⟨-, rfl⟩ := h
      exact .rebased number onto upstream head _
    · obtain ⟨-, rfl⟩ := h
      exact .nothing
  case pushBranches updates =>
    cases choice <;> simp only [effect, Option.some.injEq, reduceCtorEq] at h
    split at h
    · rename_i hleased
      rw [Prod.mk.injEq] at h
      obtain ⟨-, rfl⟩ := h
      exact .pushed updates hleased
    · rw [Prod.mk.injEq] at h
      obtain ⟨-, rfl⟩ := h
      exact .nothing
  case fastForward branch sha =>
    cases choice <;> simp only [effect, Option.some.injEq, reduceCtorEq] at h
    split at h
    · rename_i hforward
      rw [Prod.mk.injEq] at h
      obtain ⟨-, rfl⟩ := h
      exact .moved branch sha hforward
    · rw [Prod.mk.injEq] at h
      obtain ⟨-, rfl⟩ := h
      exact .nothing
  all_goals
    cases choice <;> simp only [effect, Option.some.injEq, Prod.mk.injEq, reduceCtorEq] at h
    obtain ⟨-, rfl⟩ := h
    exact .nothing

theorem wrote_of_outcome (h : outcome op choice w = some (answer, w₁)) : Wrote w op choice w₁ := by
  cases choice with
  | failed text =>
    simp only [outcome, Option.some.injEq, Prod.mk.injEq] at h
    obtain ⟨-, rfl⟩ := h
    exact .nothing
  | lost text =>
    simp only [outcome, Option.map_eq_some_iff, Prod.mk.injEq] at h
    obtain ⟨⟨answer', w'⟩, heffect, -, rfl⟩ := h
    cases wrote_of_effect heffect with
    | nothing => exact .nothing
    | comment number login comment => exact .comment number login comment
    | unlabeled number label => exact .unlabeled number label
    | pushed updates hleased => exact .pushed updates hleased
    | moved branch sha hforward => exact .moved branch sha hforward
  | done => exact wrote_of_effect h
  | rebased added => exact wrote_of_effect h
  | conflict => exact wrote_of_effect h

theorem exec_cases {w' : World} (h : exec op choice w = some (answer, w')) : ∃ w₁, outcome op choice w = some (answer, w₁) ∧ w' = w₁.record (.call op answer) := by
  obtain ⟨r, houtcome, heq⟩ := Option.map_eq_some_iff.mp h
  rw [Prod.mk.injEq] at heq
  obtain ⟨rfl, rfl⟩ := heq
  exact ⟨r.2, houtcome, rfl⟩

theorem effect_of_outcome {v : op.Val} (h : outcome op choice w = some (.ok v, w₁)) : effect op choice w = some (.ok v, w₁) := by
  cases choice with
  | failed text => simp [outcome] at h
  | lost text => simp [outcome] at h
  | done => exact h
  | rebased added => exact h
  | conflict => exact h

theorem foldl_pushBranch (updates : List BranchUpdate) (w : World) :
    (updates.foldl (fun w u => w.pushBranch u) w).commits = w.commits ∧ (updates.foldl (fun w u => w.pushBranch u) w).comments = w.comments ∧
      (updates.foldl (fun w u => w.pushBranch u) w).pulls = w.pulls ∧ (updates.foldl (fun w u => w.pushBranch u) w).checkRuns = w.checkRuns ∧
      (updates.foldl (fun w u => w.pushBranch u) w).log = w.log ∧ (updates.foldl (fun w u => w.pushBranch u) w).made = w.made := by
  induction updates generalizing w with
  | nil => exact ⟨rfl, rfl, rfl, rfl, rfl, rfl⟩
  | cons u rest ih => exact ih (w.pushBranch u)

theorem branches_foldl_pushBranch {updates : List BranchUpdate} {b : String} (h : ∀ u ∈ updates, u.branch ≠ b) (w : World) :
    (updates.foldl (fun w u => w.pushBranch u) w).branches b = w.branches b := by
  induction updates generalizing w with
  | nil => rfl
  | cons u rest ih =>
    rw [List.foldl_cons, ih fun u' hu' => h u' (List.mem_cons_of_mem u hu')]
    exact if_neg fun heq => h u List.mem_cons_self heq.symm

theorem eq_of_branches_foldl_pushBranch {updates : List BranchUpdate} {b sha : String}
    (h : (updates.foldl (fun w u => w.pushBranch u) w).branches b = some sha) : w.branches b = some sha ∨ ∃ u ∈ updates, u.sha = sha := by
  induction updates generalizing w with
  | nil => exact Or.inl h
  | cons u rest ih =>
    rcases ih h with hbranch | ⟨u', hu', heq⟩
    · simp only [pushBranch, place, host, setBranch] at hbranch
      split at hbranch
      · exact Or.inr ⟨u, List.mem_cons_self, Option.some.inj hbranch⟩
      · exact Or.inl hbranch
    · exact Or.inr ⟨u', List.mem_cons_of_mem u hu', heq⟩

theorem knows_of_hosted_foldl {updates : List BranchUpdate} (hupdates : ∀ u ∈ updates, w.commits.Knows u.sha)
    (hhosted : ∀ sha ∈ w.hosted, w.commits.Knows sha) {sha : String} (h : sha ∈ (updates.foldl (fun w u => w.pushBranch u) w).hosted) :
    w.commits.Knows sha := by
  induction updates generalizing w with
  | nil => exact hhosted sha h
  | cons u rest ih =>
    refine ih (w := w.pushBranch u) (fun u' hu' => hupdates u' (List.mem_cons_of_mem u hu')) (fun sha' hsha' => ?_) h
    rcases List.mem_append.mp hsha' with hbelow | hold
    · exact Ancestry.mem_ids_of_below w.commits.ordered (hupdates u List.mem_cons_self) hbelow
    · exact hhosted sha' hold

theorem get_removeLabel (w : World) (number n : Int) :
    (w.removeLabel number).pulls.get n = (w.pulls.get n).map fun pr => if pr.number = number then { pr with labeled := false } else pr :=
  Table.get_map w.pulls _ (fun pr => by split <;> rfl) n

end World

/-! ### The books -/

namespace Queue

variable (q : Queue)

/-- A stack marker counts on the top pull request of its stack. -/
def Recorded (w : World) (number : Int) (stack : Stack) : Prop := (q.reading w number).stack = some stack ∧ stack.top.number = number

/-- The branch of the pull request may be pushed to. -/
def Eligible (w : World) (number : Int) : Prop := ∃ pr, w.pulls.get number = some pr ∧ pr.sameRepo = true ∧ pr.headRef ≠ q.config.target

def StackOk (w : World) (stack : Stack) : Prop := stack.Valid ∧ ∀ member ∈ stack.members, q.Eligible w member.number

structure PullRequest.Proper (pr : PullRequest) : Prop where
  number : 0 < pr.number ∧ Text.FitsInt64 pr.number
  head : pr.sameRepo = true → pr.headRef ≠ pr.baseRef
  base : Plain pr.baseRef

structure Books (w : World) : Prop where
  shas : ∀ sha, w.commits.Knows sha → IsSHA sha
  heads : ∀ branch sha, w.branches branch = some sha → w.commits.Knows sha
  hosted : ∀ sha ∈ w.hosted, w.commits.Knows sha
  pulls : ∀ number pr, w.pulls.get number = some pr → PullRequest.Proper pr
  urls : ∀ sha, ∀ run ∈ w.checkRuns sha, Plain run.url
  owns : ∀ number, ∀ own ∈ (q.reading w number).owns, own.Valid
  recorded : ∀ number stack, (q.reading w number).stack = some stack → q.StackOk w stack

structure Drift (w w' : World) : Prop where
  said : ∀ number, w'.said q.botLogin number = w.said q.botLogin number
  known : ∀ sha, w.commits.Knows sha → w'.commits.Knows sha
  reaches : ∀ x y, w.commits.Knows y → w'.commits.reaches x y = w.commits.reaches x y
  pulls : ∀ number pr, w.pulls.get number = some pr → ∃ pr', w'.pulls.get number = some pr' ∧ pr'.headRef = pr.headRef ∧ pr'.sameRepo = pr.sameRepo

section Drift

variable {q} {w w' w'' : World}

theorem Drift.refl (w : World) : q.Drift w w :=
  ⟨fun _ => rfl, fun _ => id, fun _ _ _ => rfl, fun _ pr h => ⟨pr, h, rfl, rfl⟩⟩

theorem Drift.eligible (h : q.Drift w w') {number : Int} (heligible : q.Eligible w number) : q.Eligible w' number := by
  obtain ⟨pr, hget, hrepo, hne⟩ := heligible
  obtain ⟨pr', hget', href, hsame⟩ := h.pulls number pr hget
  exact ⟨pr', hget', hsame.trans hrepo, href ▸ hne⟩

theorem Drift.stackOk (h : q.Drift w w') {stack : Stack} (hok : q.StackOk w stack) : q.StackOk w' stack :=
  ⟨hok.1, fun member hmember => h.eligible (hok.2 member hmember)⟩

theorem Drift.trans (h : q.Drift w w') (h' : q.Drift w' w'') : q.Drift w w'' where
  said number := (h'.said number).trans (h.said number)
  known sha hsha := h'.known sha (h.known sha hsha)
  reaches x y hy := (h'.reaches x y (h.known y hy)).trans (h.reaches x y hy)
  pulls number pr hget := by
    obtain ⟨pr', hget', href', hsame'⟩ := h.pulls number pr hget
    obtain ⟨pr'', hget'', href'', hsame''⟩ := h'.pulls number pr' hget'
    exact ⟨pr'', hget'', href''.trans href', hsame''.trans hsame'⟩

end Drift

/-! ### What a tick may do -/

/-- In the tick that `log` ends with, the snapshot had the stack on its target, every member queued at its recorded head, and every required check that applies passed on its top commit. -/
structure Tested (stack : Stack) (log : List LogEntry) : Prop where
  base : Answered log (.resolveBranch q.config.target) stack.base
  recorded : ∃ comment, Answered log (.statusComment stack.top.number q.botLogin) comment ∧ parseStack comment.body = some stack
  members : ∀ member ∈ stack.members, ∃ numbers pr, Answered log (.issues q.config.label) numbers ∧ member.number ∈ numbers ∧
    Answered log (.pullRequest member.number) pr ∧ pr.headSHA = member.sha
  checks : ∃ runs, ∃ files : Int → List String, Answered log (.checkRuns stack.top.sha) runs ∧
    (needsFiles q.config.requiredChecks = true → ∀ member ∈ stack.members, Answered log (.changedFiles member.number) (files member.number)) ∧
    ∀ check ∈ q.config.requiredChecks, applicable q.glob check (stack.numbers.flatMap files) = true →
      ∃ run, newest runs check.name = some run ∧ run.Passed

theorem Tested.append {q : Queue} {stack : Stack} {entries log : List LogEntry} (h : q.Tested stack log)
    (hcalls : ∀ entry ∈ entries, entry.isCall = true) : q.Tested stack (entries ++ log) where
  base := h.base.append hcalls
  recorded := h.recorded.imp fun _ hcomment => ⟨hcomment.1.append hcalls, hcomment.2⟩
  members member hmember := by
    obtain ⟨numbers, pr, hnumbers, hmem, hpr, hhead⟩ := h.members member hmember
    exact ⟨numbers, pr, hnumbers.append hcalls, hmem, hpr.append hcalls, hhead⟩
  checks := by
    obtain ⟨runs, files, hruns, hfiles, hpassed⟩ := h.checks
    exact ⟨runs, files, hruns.append hcalls, fun hneeds member hmember => (hfiles hneeds member hmember).append hcalls, hpassed⟩

end Queue

namespace Snapshot

variable (snapshot : Snapshot)

def Live (inFlight : InFlight) : Prop := inFlight.landed = false ∧ snapshot.stale inFlight = none

end Snapshot

def Choice.Ok (choice : Choice) : Prop := ∀ added, choice = .rebased added → ∀ sha ∈ added, IsSHA sha

namespace Queue

variable (q : Queue)

def Guard : Call → World → Prop
  | .upsertStatusComment _ login comment, w => login = q.botLogin ∧ (∀ own ∈ comment.reading.owns, own.Valid) ∧
    ∀ stack, comment.reading.stack = some stack → q.StackOk w stack
  | .rebase _ onto _ _, w => w.commits.Knows onto
  | .pushBranches updates, w => ∀ u ∈ updates, u.branch ≠ q.config.target ∧ w.commits.Knows u.sha
  | .fastForward branch sha, w => branch = q.config.target ∧ w.commits.Knows sha ∧ ∃ stack, stack.top.sha = sha ∧ q.Tested stack w.log
  | _, _ => True

def logic : Logic Call.Ans World where
  step op w answer w' := ∃ choice : Choice, choice.Ok ∧ World.exec op choice w = some (answer, w')
  guard := q.Guard
  rely w w' := w'.log = w.log ∧ q.Drift w w' ∧ q.Books w'

section Preservation

variable {q} {w w₁ w' : World} {op : Call} {choice : Choice}

theorem drift_of_wrote (hwrote : World.Wrote w op choice w₁) (hguard : q.Guard op w)
    (hcomment : ∀ number login comment, op ≠ .upsertStatusComment number login comment) (hforward : ∀ branch sha, op ≠ .fastForward branch sha) :
    q.Drift w w₁ := by
  cases hwrote with
  | nothing => exact .refl w
  | comment number login comment => exact absurd rfl (hcomment number login comment)
  | moved branch sha => exact absurd rfl (hforward branch sha)
  | unlabeled number label =>
    refine ⟨fun _ => rfl, fun _ => id, fun _ _ _ => rfl, fun n pr hget => ?_⟩
    rw [World.get_removeLabel, hget, Option.map_some]
    refine ⟨_, rfl, ?_⟩
    split <;> exact ⟨rfl, rfl⟩
  | rebased number onto upstream head added =>
    exact ⟨fun _ => rfl, fun _ => Ancestry.History.knows_extend, fun _ _ hy => Ancestry.History.reaches_extend hy, fun _ pr hget => ⟨pr, hget, rfl, rfl⟩⟩
  | pushed updates hleased =>
    obtain ⟨hcommits, hcomments, hpulls, -, -, -⟩ := World.foldl_pushBranch updates w
    refine ⟨fun n => ?_, fun sha hsha => by rwa [hcommits], fun x y _ => by rw [hcommits], fun n pr hget => ⟨pr, by rwa [hpulls], rfl, rfl⟩⟩
    rw [World.said, hcomments, World.said]

theorem Books.record (h : q.Books w) (entry : LogEntry) : q.Books (w.record entry) :=
  ⟨h.shas, h.heads, h.hosted, h.pulls, h.urls, h.owns, h.recorded⟩

theorem Books.wrote (h : q.Books w) (hwrote : World.Wrote w op choice w₁) (hguard : q.Guard op w) (hchoice : choice.Ok) : q.Books w₁ := by
  cases hwrote with
  | nothing => exact h
  | comment number login comment =>
    obtain ⟨rfl, howns, hstack⟩ := hguard
    have hreading : ∀ n, q.reading (w.setComment q.botLogin number comment) n = comment.reading ∧ n = number ∨
        q.reading (w.setComment q.botLogin number comment) n = q.reading w n := by
      intro n
      by_cases hn : n = number
      · subst hn
        exact Or.inl ⟨by rw [reading, World.said_setComment_self], rfl⟩
      · exact Or.inr (by rw [reading, World.said_setComment_of_ne (fun heq => hn heq.2), reading])
    refine ⟨h.shas, h.heads, h.hosted, h.pulls, h.urls, fun n own hown => ?_, fun n stack hn => ?_⟩
    · rcases hreading n with ⟨heq, -⟩ | heq
      · exact howns own (heq ▸ hown)
      · exact h.owns n own (heq ▸ hown)
    · rcases hreading n with ⟨heq, -⟩ | heq
      · exact hstack stack (heq ▸ hn)
      · exact h.recorded n stack (heq ▸ hn)
  | unlabeled number label =>
    refine ⟨h.shas, h.heads, h.hosted, fun n pr hget => ?_, h.urls, h.owns, fun n stack hn => ?_⟩
    · rw [World.get_removeLabel, Option.map_eq_some_iff] at hget
      obtain ⟨old, hold, rfl⟩ := hget
      have hproper := h.pulls n old hold
      split
      · exact ⟨hproper.number, hproper.head, hproper.base⟩
      · exact hproper
    · have hdrift : q.Drift w (w.removeLabel number) := drift_of_wrote (@World.Wrote.unlabeled w number label .done) hguard (by simp) (by simp)
      exact hdrift.stackOk (h.recorded n stack hn)
  | rebased number onto upstream head added =>
    refine ⟨fun sha hsha => ?_, fun branch sha hbranch => Ancestry.History.knows_extend (h.heads branch sha hbranch),
      fun sha hsha => Ancestry.History.knows_extend (h.hosted sha hsha), h.pulls, h.urls, h.owns, h.recorded⟩
    rcases Ancestry.History.knows_of_extend hsha with hadded | hknown
    · exact hchoice added rfl sha hadded
    · exact h.shas sha hknown
  | pushed updates hleased =>
    obtain ⟨hcommits, hcomments, hpulls, hruns, -, -⟩ := World.foldl_pushBranch updates w
    have hreading : ∀ n, q.reading (updates.foldl (fun w u => w.pushBranch u) w) n = q.reading w n := fun n => by
      rw [reading, World.said, hcomments, reading, World.said]
    refine ⟨fun sha hsha => h.shas sha (hcommits ▸ hsha), fun branch sha hbranch => ?_, fun sha hsha => ?_, fun n pr hget => h.pulls n pr (hpulls ▸ hget),
      fun sha run hrun => h.urls sha run (hruns ▸ hrun), fun n own hown => h.owns n own (hreading n ▸ hown), fun n stack hn => ?_⟩
    · rw [hcommits]
      rcases World.eq_of_branches_foldl_pushBranch hbranch with hold | ⟨u, hu, rfl⟩
      · exact h.heads branch sha hold
      · exact (hguard u hu).2
    · rw [hcommits]
      exact World.knows_of_hosted_foldl (fun u hu => (hguard u hu).2) h.hosted hsha
    · have hdrift : q.Drift w (updates.foldl (fun w u => w.pushBranch u) w) :=
        drift_of_wrote (@World.Wrote.pushed w updates .done hleased) hguard (by simp) (by simp)
      exact hdrift.stackOk (h.recorded n stack (hreading n ▸ hn))
  | moved branch sha hforward =>
    obtain ⟨rfl, hknown, -⟩ := hguard
    refine ⟨h.shas, fun b sha' hbranch => ?_, fun sha' hsha' => ?_, h.pulls, h.urls, h.owns, h.recorded⟩
    · simp only [World.host, World.setBranch] at hbranch
      split at hbranch
      · exact Option.some.inj hbranch ▸ hknown
      · exact h.heads b sha' hbranch
    · rcases List.mem_append.mp hsha' with hbelow | hold
      · exact Ancestry.mem_ids_of_below w.commits.ordered hknown hbelow
      · exact h.hosted sha' hold

theorem Books.exec (h : q.Books w) (hguard : q.Guard op w) (hchoice : choice.Ok) {answer : op.Ans} (hexec : World.exec op choice w = some (answer, w')) :
    q.Books w' := by
  obtain ⟨w₁, houtcome, rfl⟩ := World.exec_cases hexec
  exact (h.wrote (World.wrote_of_outcome houtcome) hguard hchoice).record _

theorem drift_change {c : State} {change : Change} (hbooks : q.Books c.world) (hlawful : q.Lawful c (.env change)) :
    q.Drift c.world (c.world.change change) ∧ q.Books (c.world.change change) := by
  cases change with
  | commit sha parents =>
    rw [World.change]
    split
    · refine ⟨⟨fun _ => rfl, fun _ => Ancestry.History.knows_add, fun _ _ hy => Ancestry.History.reaches_add hy, fun _ pr hget => ⟨pr, hget, rfl, rfl⟩⟩, fun x hx => ?_, fun b x hx => Ancestry.History.knows_add (hbooks.heads b x hx), fun x hx => ?_,
        hbooks.pulls, hbooks.urls, hbooks.owns, hbooks.recorded⟩
      · rcases Ancestry.History.knows_of_add hx with rfl | hknown
        · exact hlawful
        · exact hbooks.shas x hknown
      · rename_i hparents
        simp only [List.all_eq_true, decide_eq_true_eq] at hparents
        dsimp only at hx
        split at hx
        · exact Ancestry.History.knows_add (hbooks.hosted x hx)
        · rcases List.mem_cons.mp hx with rfl | hx
          · exact Ancestry.History.knows_added x fun parent hparent => hbooks.hosted parent (hparents parent hparent)
          · exact Ancestry.History.knows_add (hbooks.hosted x hx)
    · exact ⟨.refl _, hbooks⟩
  | push branch sha =>
    cases sha with
    | none =>
      refine ⟨⟨fun _ => rfl, fun _ => id, fun _ _ _ => rfl, fun _ pr hget => ⟨pr, hget, rfl, rfl⟩⟩, hbooks.shas, fun b x hx => ?_, hbooks.hosted, hbooks.pulls, hbooks.urls, hbooks.owns, hbooks.recorded⟩
      simp only [World.change] at hx
      split at hx
      · cases hx
      · exact hbooks.heads b x hx
    | some sha =>
      rw [World.change]
      split
      · rename_i hsha
        refine ⟨⟨fun _ => rfl, fun _ => id, fun _ _ _ => rfl, fun _ pr hget => ⟨pr, hget, rfl, rfl⟩⟩, hbooks.shas, fun b x hx => ?_, hbooks.hosted, hbooks.pulls, hbooks.urls, hbooks.owns, hbooks.recorded⟩
        simp only [World.setBranch] at hx
        split at hx
        · exact Option.some.inj hx ▸ hbooks.hosted sha hsha
        · exact hbooks.heads b x hx
      · exact ⟨.refl _, hbooks⟩
  | pull pr =>
    obtain ⟨hnumber, hhead, hbase, hsame⟩ := hlawful
    have hdrift : q.Drift c.world (c.world.change (.pull pr)) := by
      refine ⟨fun _ => rfl, fun _ => id, fun _ _ _ => rfl, fun n old hget => ?_⟩
      rw [World.change, Table.get_put]
      split
      · rename_i heq
        subst heq
        obtain ⟨href, hrepo⟩ := hsame old hget
        exact ⟨pr, rfl, href.symm, hrepo.symm⟩
      · exact ⟨old, hget, rfl, rfl⟩
    refine ⟨hdrift, hbooks.shas, hbooks.heads, hbooks.hosted, fun n pr' hget => ?_, hbooks.urls, hbooks.owns, fun n stack hn => hdrift.stackOk (hbooks.recorded n stack hn)⟩
    rw [World.change, Table.get_put] at hget
    split at hget
    · obtain rfl := Option.some.inj hget
      exact ⟨hnumber, hhead, hbase⟩
    · exact hbooks.pulls n pr' hget
  | comment login number comment =>
    have hsaid : ∀ n, (c.world.setComment login number comment).said q.botLogin n = c.world.said q.botLogin n := fun n =>
      World.said_setComment_of_ne (fun heq => hlawful heq.1.symm) comment c.world
    have hreading : ∀ n, q.reading (c.world.setComment login number comment) n = q.reading c.world n := fun n => by rw [reading, hsaid, reading]
    exact ⟨⟨hsaid, fun _ => id, fun _ _ _ => rfl, fun _ pr hget => ⟨pr, hget, rfl, rfl⟩⟩, hbooks.shas, hbooks.heads,
      hbooks.hosted, hbooks.pulls, hbooks.urls, fun n own hown => hbooks.owns n own (hreading n ▸ hown), fun n stack hn => hbooks.recorded n stack (hreading n ▸ hn)⟩
  | runs sha checks workflows =>
    refine ⟨⟨fun _ => rfl, fun _ => id, fun _ _ _ => rfl, fun _ pr hget => ⟨pr, hget, rfl, rfl⟩⟩, hbooks.shas, hbooks.heads,
      hbooks.hosted, hbooks.pulls, fun s run hrun => ?_, hbooks.owns, hbooks.recorded⟩
    simp only [World.change] at hrun
    split at hrun
    · exact hlawful run hrun
    · exact hbooks.urls s run hrun
  | writers logins =>
    exact ⟨⟨fun _ => rfl, fun _ => id, fun _ _ _ => rfl, fun _ pr hget => ⟨pr, hget, rfl, rfl⟩⟩, hbooks.shas, hbooks.heads,
      hbooks.hosted, hbooks.pulls, hbooks.urls, hbooks.owns, hbooks.recorded⟩

theorem log_change (change : Change) (w : World) : (w.change change).log = w.log := by
  cases change with
  | commit sha parents =>
    rw [World.change]
    split <;> rfl
  | push branch sha =>
    cases sha with
    | none => rfl
    | some sha =>
      rw [World.change]
      split <;> rfl
  | pull pr => rfl
  | comment login number comment => rfl
  | runs sha checks workflows => rfl
  | writers logins => rfl

theorem Books.change {c : State} {change : Change} (h : q.Books c.world) (hok : q.Lawful c (.env change)) :
    q.Books (c.world.change change) ∧ q.logic.rely c.world (c.world.change change) := by
  obtain ⟨hdrift, hbooks⟩ := drift_change h hok
  exact ⟨hbooks, log_change change c.world, hdrift, hbooks⟩

end Preservation

end Queue

end MergeQueue

end RunnerYard
