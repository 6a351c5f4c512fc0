import RunnerYard.MergeQueue.Conduct

/-!
# The target moves to tested commits

What every run of ticks guarantees of the target branch, whatever others do to the repository meanwhile and wherever a tick stops: a tick moves it only forward, to the top commit of a stack that was recorded and, in the snapshot of that tick, built on the target, unchanged and green.
-/

namespace RunnerYard

namespace MergeQueue

open Interaction

theorem Queue.branches_of_wrote {q : Queue} {w w₁ : World} {op : Call} {choice : Choice} (hwrote : World.Wrote w op choice w₁)
    (hguard : q.Guard op w) (hforward : ∀ branch sha, op ≠ .fastForward branch sha) :
    w₁.branches q.config.target = w.branches q.config.target := by
  cases hwrote with
  | pushed updates hleased => exact World.branches_foldl_pushBranch (fun u hu => (hguard u hu).1) w
  | moved branch sha hmoved => exact absurd rfl (hforward branch sha)
  | _ => rfl

/-- Others may do what they like, and a tick may stop after any call, with its effect or without: every attempt to move the target is a fast-forward to the top of a tested stack, and writes nothing if the target has moved on. -/
theorem target_moves_to_tested_commits {q : Queue} (htexts : q.PlainTexts) {w₀ : World} (hbooks : q.Books w₀) {c c' : State} {choice : Choice}
    (h : Reach q.process.step q.Lawful { world := w₀ } c) (hstep : q.process.step (.move choice) c = some c') :
    (c'.world.branches q.config.target ≠ c.world.branches q.config.target → ∃ sha, c.pending = some (.fastForward q.config.target sha) ∧
      c'.world.branches q.config.target = some sha ∧ ∀ old, c.world.branches q.config.target = some old → c.world.commits.reaches old sha = true) ∧
    ∀ branch sha, c.pending = some (.fastForward branch sha) → branch = q.config.target ∧ (∃ stack : Stack, stack.top.sha = sha ∧ q.Tested stack c.world.log) ∧
      ((∃ old, c.world.branches branch = some old ∧ c.world.commits.reaches old sha = false) → ∃ entry, c'.world = c.world.record entry) := by
  have hsound := (q.outline htexts).sound hbooks h
  obtain ⟨op, next, answer, w', hrunning, hexec, rfl⟩ := Process.step_move hstep
  have hguard : q.Guard op c.world := hsound.guard (q.outline htexts) hrunning
  have hpending : c.pending = some op := by rw [Process.Config.pending, hrunning]
  obtain ⟨w₁, houtcome, rfl⟩ := World.exec_cases hexec
  have hwrote := World.wrote_of_outcome houtcome
  rw [hpending]
  constructor
  · intro hchanged
    by_cases hforward : ∃ branch sha, op = .fastForward branch sha
    · obtain ⟨branch, sha, rfl⟩ := hforward
      obtain ⟨rfl, -, -⟩ := hguard
      cases hwrote with
      | nothing => exact absurd rfl hchanged
      | moved _ _ hmoved =>
        refine ⟨sha, rfl, if_pos rfl, fun old hold => ?_⟩
        rw [hold, Option.all_some] at hmoved
        exact hmoved
    · exact absurd (Queue.branches_of_wrote hwrote hguard fun branch sha heq => hforward ⟨branch, sha, heq⟩) hchanged
  · rintro branch sha heq
    obtain rfl := Option.some.inj heq
    obtain ⟨rfl, -, htested⟩ := hguard
    refine ⟨rfl, htested, ?_⟩
    rintro ⟨old, hold, hbehind⟩
    cases hwrote with
    | nothing => exact ⟨_, rfl⟩
    | moved _ _ hmoved =>
      rw [hold, Option.all_some, hbehind] at hmoved
      cases hmoved

instance decidableLawful (q : Queue) (c : State) : (label : Label) → Decidable (q.Lawful c label)
  | .env (.commit sha _) => inferInstanceAs (Decidable (IsSHA sha))
  | .env (.push _ _) => instDecidableTrue
  | .env (.pull _) => inferInstanceAs (Decidable (_ ∧ _ ∧ _ ∧ _))
  | .env (.comment login _ _) => inferInstanceAs (Decidable (login ≠ q.botLogin))
  | .env (.runs _ _ _) => inferInstanceAs (Decidable (∀ _ ∈ _, _))
  | .env (.writers _) => instDecidableTrue
  | .start _ => inferInstanceAs (Decidable (_ ∧ _))
  | .move (.rebased _) => inferInstanceAs (Decidable (∀ _ ∈ _, _))
  | .move .done => instDecidableTrue
  | .move (.failed _) => instDecidableTrue
  | .move (.lost _) => instDecidableTrue
  | .move .conflict => instDecidableTrue
  | .stop => instDecidableTrue

theorem Queue.books_of_silent {q : Queue} {w : World} (hshas : ∀ sha, w.commits.Knows sha → IsSHA sha)
    (hheads : ∀ branch sha, w.branches branch = some sha → w.commits.Knows sha) (hhosted : ∀ sha ∈ w.hosted, w.commits.Knows sha)
    (hpulls : ∀ pr ∈ w.pulls.rows, PullRequest.Proper pr) (hruns : ∀ sha, w.checkRuns sha = []) (hsilent : ∀ number, w.comments q.botLogin number = none) :
    q.Books w := by
  have hreading : ∀ number, q.reading w number = {} := by
    intro number
    rw [reading, World.said, hsilent]
    rfl
  refine ⟨hshas, hheads, hhosted, fun number pr hget => hpulls pr (Table.mem_of_get hget), fun sha run hrun => ?_, fun number own hown => ?_, fun number stack hstack => ?_⟩
  · rw [hruns] at hrun
    cases hrun
  · rw [hreading] at hown
    cases hown
  · rw [hreading] at hstack
    cases hstack

namespace Demo

/-- A pull request with one commit, and a queue that takes one at a time. -/
def opened : World where
  commits := Ancestry.History.empty |>.add (sha '0') [] |>.add (sha '1') [sha '0']
  hosted := [sha '1', sha '0']
  branches := fun branch => if branch = "main" then some (sha '0') else if branch = "one" then some (sha '1') else none
  pulls := Table.empty |>.put { number := 1, headRef := "one", baseRef := "main", labeled := true, labeledAt := 5, labeledBy := "alice" }
  writers := ["alice"]

def single : Queue where
  config := { target := "main", label := "queue", batchSize := 1, requiredChecks := [⟨"ci", []⟩], checkTimeout := 100 * Duration.second }
  botLogin := "queue[bot]"
  glob := fun _ _ => false

def calls (n : Nat) : List Label := List.replicate n (.move .done)

/-- The first tick stacks the pull request, its check passes, and the second tick comes to its push. -/
def landing : List Label :=
  .start (ofUnix 60) :: calls 10 ++ [.move (.rebased [sha 'a'])] ++ calls 2 ++
    [.stop, .env (.runs (sha 'a') [⟨1, "ci", "completed", "success", "https://github.com/runs/1", 1, 65⟩] []), .start (ofUnix 70)] ++ calls 10

theorem books_opened : single.Books opened := by
  have hids : Ancestry.ids opened.commits.nodes = [sha '1', sha '0'] := by decide +kernel
  have hshas : ∀ sha ∈ Ancestry.ids opened.commits.nodes, IsSHA sha := by decide +kernel
  have hpulls : ∀ pr ∈ opened.pulls.rows, (0 < pr.number ∧ Text.FitsInt64 pr.number) ∧ (pr.sameRepo = true → pr.headRef ≠ pr.baseRef) ∧ Plain pr.baseRef := by
    decide +kernel
  refine Queue.books_of_silent hshas (fun branch sha hbranch => ?_) (fun sha hsha => ?_) (fun pr hpr => ?_) (fun _ => rfl) fun _ => rfl
  · rw [Ancestry.History.Knows, hids]
    simp only [opened] at hbranch
    split at hbranch
    · obtain rfl := Option.some.inj hbranch
      exact List.mem_cons_of_mem _ List.mem_cons_self
    · split at hbranch
      · obtain rfl := Option.some.inj hbranch
        exact List.mem_cons_self
      · cases hbranch
  · rw [Ancestry.History.Knows, hids]
    exact hsha
  · obtain ⟨hnumber, hhead, hbase⟩ := hpulls pr hpr
    exact ⟨hnumber, hhead, hbase⟩

theorem plainTexts_single : single.PlainTexts := ⟨by decide, by decide, by decide⟩

end Demo

theorem target_moves_to_tested_commits_landing : ∃ c c', Reach Demo.single.process.step Demo.single.Lawful { world := Demo.opened } c ∧
    Demo.single.process.step (.move .done) c = some c' ∧ c'.world.branches "main" = some (Demo.sha 'a') ∧
    ∃ stack : Stack, stack.top.sha = Demo.sha 'a' ∧ Demo.single.Tested stack c.world.log := by
  have hrun : ((replay Demo.single.process.step Demo.landing { world := Demo.opened }).bind fun c => (Demo.single.process.step (.move .done) c).map fun c' =>
      (c.world.branches "main", c'.world.branches "main")) = some (some (Demo.sha '0'), some (Demo.sha 'a')) := by decide +kernel
  have hobeys : Obeys Demo.single.process.step Demo.single.Lawful Demo.landing { world := Demo.opened } := by decide +kernel
  obtain ⟨c, hc, hlast⟩ := Option.bind_eq_some_iff.mp hrun
  obtain ⟨c', hc', hbranches⟩ := Option.map_eq_some_iff.mp hlast
  rw [Prod.mk.injEq] at hbranches
  have hreach := Reach.start.of_replay hobeys hc
  obtain ⟨hmoved, hforward⟩ := target_moves_to_tested_commits Demo.plainTexts_single Demo.books_opened hreach hc'
  obtain ⟨sha, hpending, hsha, -⟩ := hmoved (by rw [show Demo.single.config.target = "main" from rfl, hbranches.1, hbranches.2]; decide)
  obtain ⟨-, htested, -⟩ := hforward _ _ hpending
  have heq : sha = Demo.sha 'a' := Option.some.inj (hsha.symm.trans hbranches.2)
  exact ⟨c, c', hreach, hc', hbranches.2, heq ▸ htested⟩

/-- Whatever others do and wherever ticks stop, what the queue's own comments record are commits, and no member of a stack that they record has the target as its branch. -/
theorem records_stay_in_order {q : Queue} (htexts : q.PlainTexts) {w₀ : World} (hbooks : q.Books w₀) {c : State}
    (h : Reach q.process.step q.Lawful { world := w₀ } c) :
    (∀ number, ∀ own ∈ (q.reading c.world number).owns, own.Valid) ∧
    ∀ number stack, (q.reading c.world number).stack = some stack → stack.Valid ∧ ∀ member ∈ stack.members, q.Eligible c.world member.number := by
  obtain ⟨hbooks', -⟩ := (q.outline htexts).sound hbooks h
  exact ⟨hbooks'.owns, hbooks'.recorded⟩

theorem records_stay_in_order_landing : ∃ c stack, replay Demo.single.process.step Demo.landing { world := Demo.opened } = some c ∧
    (Demo.single.reading c.world 1).stack = some stack ∧ stack.Valid := by
  have hrun : ((replay Demo.single.process.step Demo.landing { world := Demo.opened }).bind fun c => (Demo.single.reading c.world 1).stack).isSome = true := by
    decide +kernel
  obtain ⟨stack, hstack⟩ := Option.isSome_iff_exists.mp hrun
  obtain ⟨c, hc, hread⟩ := Option.bind_eq_some_iff.mp hstack
  have hrecords := records_stay_in_order Demo.plainTexts_single Demo.books_opened (Reach.start.of_replay (by decide +kernel) hc)
  exact ⟨c, stack, hc, hread, (hrecords.2 1 stack hread).1⟩

end MergeQueue

end RunnerYard
