import RunnerYard.Interaction.Traces
import RunnerYard.MergeQueue.Tick

/-!
# First come, first served

`sortFIFO` puts the labeled pull requests in an order that depends on their labels and numbers only, `LoadSnapshot` keeps it, and so does every list that the plan makes of it: the next stack is the first batch of those that may join one, and the others wait in the same order.
-/

namespace RunnerYard

namespace MergeQueue

open Interaction

/-- The order of the queue: by label time, unknown last, then by number. -/
def Before (a b : PR) : Prop :=
  (a.labeledAt ≠ 0 ∧ b.labeledAt = 0) ∨
    ((a.labeledAt = 0 ↔ b.labeledAt = 0) ∧ (a.labeledAt < b.labeledAt ∨ a.labeledAt = b.labeledAt ∧ a.number < b.number))

section Order

variable {a b c : PR}

theorem earlier_iff : earlier a b ↔ Before a b ∨ ((a.labeledAt = b.labeledAt) ∧ a.number = b.number) := by
  unfold earlier Before
  by_cases ha : a.labeledAt = 0 <;> by_cases hb : b.labeledAt = 0
  · simp [ha, hb]
    omega
  · simp [ha, hb]
    omega
  · simp [ha, hb]
  · simp [ha, hb]
    split <;> omega

theorem earlier_total : earlier a b ∨ earlier b a := by
  rw [earlier_iff, earlier_iff]
  unfold Before
  omega

theorem earlier_trans (hab : earlier a b) (hbc : earlier b c) : earlier a c := by
  rw [earlier_iff] at hab hbc ⊢
  unfold Before at *
  omega

theorem number_eq_of_earlier (hab : earlier a b) (hba : earlier b a) : a.number = b.number := by
  rw [earlier_iff] at hab hba
  unfold Before at *
  omega

instance : Std.Total earlier := ⟨fun _ _ => earlier_total⟩

instance : IsTrans PR earlier := ⟨fun _ _ _ => earlier_trans⟩

end Order

theorem before_sortFIFO {prs : List PR} (h : (prs.map (·.number)).Nodup) : (sortFIFO prs).Pairwise Before := by
  have hsorted : (sortFIFO prs).Pairwise earlier := List.pairwise_insertionSort earlier prs
  have hdistinct : (sortFIFO prs).Pairwise fun a b => a.number ≠ b.number := by
    rw [← List.pairwise_map (R := (· ≠ ·))]
    exact ((List.perm_insertionSort earlier prs).map _).nodup_iff.mpr h
  refine (hsorted.and hdistinct).imp fun hab => ?_
  rcases earlier_iff.mp hab.1 with hbefore | ⟨-, hnumber⟩
  · exact hbefore
  · exact absurd hnumber hab.2

theorem sortFIFO_perm {prs prs' : List PR} (h : (prs.map (·.number)).Nodup) (hperm : prs'.Perm prs) : sortFIFO prs' = sortFIFO prs := by
  have hmem : ∀ pr ∈ sortFIFO prs', pr ∈ prs := fun pr hpr => hperm.mem_iff.mp ((List.mem_insertionSort earlier).mp hpr)
  refine List.Perm.eq_of_pairwise (fun a b ha hb (hab : earlier a b) (hba : earlier b a) => ?_) ?_ ?_ ?_
  · exact List.inj_on_of_nodup_map h (hmem a ha) ((List.mem_insertionSort earlier).mp hb) (number_eq_of_earlier hab hba)
  · exact List.pairwise_insertionSort earlier prs'
  · exact List.pairwise_insertionSort earlier prs
  · exact (List.perm_insertionSort earlier prs').trans (hperm.trans (List.perm_insertionSort earlier prs).symm)

/-! ### The snapshot keeps the order -/

namespace Queue

variable {q : Queue} {now : Int} {targetSHA : String} {trace : List (Event Call.Ans)}

theorem queued_loadPR {loading loading' : Loading} {pr : PR} (h : Try.Yields (q.loadPR loading pr) trace loading') :
    loading'.queued.map (·.toPR) = loading.queued.map (·.toPR) ++ [pr] := by
  unfold loadPR at h
  obtain ⟨front, back, permission, rfl, -, hrest⟩ := Try.yields_bind_iff.mp h
  split at hrest
  · rw [Try.yields_pure_iff] at hrest
    rw [hrest.2, List.map_append, List.map_singleton]
  · obtain ⟨_, _, comment, rfl, -, hpure⟩ := Try.yields_bind_iff.mp hrest
    rw [Try.yields_pure_iff] at hpure
    rw [hpure.2, List.map_append, List.map_singleton]

theorem queued_loadQueue {prs : List PR} {snapshot : Snapshot} (h : Try.Yields (q.loadQueue now targetSHA prs) trace snapshot) :
    snapshot.queued.map (·.toPR) = sortFIFO prs ∧ snapshot.targetSHA = targetSHA := by
  unfold loadQueue at h
  obtain ⟨front, back, loading, rfl, hloading, hrest⟩ := Try.yields_bind_iff.mp h
  obtain ⟨_, _, inFlight, rfl, -, hpure⟩ := Try.yields_bind_iff.mp hrest
  rw [Try.yields_pure_iff] at hpure
  rw [hpure.2]
  -- what was loaded so far, followed by what is to be loaded, is the sorted list
  have hqueued := hloading.foldlM (fun rest loading _ => loading.queued.map (·.toPR) ++ rest = sortFIFO prs)
    (fun pr rest loading loading' _ _ hinv hround => by rw [queued_loadPR hround, List.append_assoc]; exact hinv) rfl
  rw [List.append_nil] at hqueued
  exact ⟨hqueued, rfl⟩

end Queue

/-! ### The plan keeps it -/

/-- The pull requests that may join a stack and have not landed. -/
def Snapshot.eligible (snapshot : Snapshot) (config : Config) : List QueuedPR :=
  snapshot.queued.filter fun pr => !pr.landed && (ineligibleReason pr config).isNone

/-- The status comments on some pull requests, in the order in which the plan writes them. -/
def commentsOn (numbers : List Int) (actions : List Action) : List (Int × String) :=
  actions.filterMap fun
    | .comment number body => if number ∈ numbers then some (number, body) else none
    | _ => none

theorem commentsOn_append (numbers : List Int) (a b : List Action) : commentsOn numbers (a ++ b) = commentsOn numbers a ++ commentsOn numbers b :=
  List.filterMap_append

theorem commentsOn_mapIdx {numbers : List Int} {prs : List QueuedPR} (h : ∀ pr ∈ prs, pr.number ∈ numbers) (body : Nat → QueuedPR → String) :
    commentsOn numbers (prs.mapIdx fun i pr => .comment pr.number (body i pr)) = prs.mapIdx fun i pr => (pr.number, body i pr) := by
  induction prs generalizing body with
  | nil => rfl
  | cons pr rest ih =>
    have hfirst : commentsOn numbers [.comment pr.number (body 0 pr)] = [(pr.number, body 0 pr)] := by
      simp [commentsOn, h pr List.mem_cons_self]
    rw [List.mapIdx_cons, List.mapIdx_cons, ← List.singleton_append, commentsOn_append, hfirst]
    rw [ih (fun other hother => h other (List.mem_cons_of_mem pr hother)) fun i => body (i + 1)]
    rfl

namespace Snapshot

variable {snapshot : Snapshot} {config : Config}

theorem candidates_eq_eligible (h : snapshot.inFlight = []) : snapshot.candidates config = snapshot.eligible config := by
  have hfree : snapshot.free = snapshot.queued.filter fun pr => !pr.landed := by
    unfold free
    apply List.filter_congr
    intro pr _
    rw [marked_eq_nil.mpr h]
    simp
  rw [candidates, hfree, List.filter_filter, eligible]
  apply List.filter_congr
  intro pr _
  rw [Bool.and_comm]

theorem next_eq_take (h : snapshot.inFlight = []) (hbatch : 0 ≤ config.batchSize) :
    snapshot.next config = (snapshot.eligible config).take config.batchSize.toNat := by
  unfold next resolved
  rw [marked_eq_nil.mpr h, candidates_eq_eligible h, if_pos (by rfl), if_neg (by omega)]

theorem waiting_eq_drop (h : snapshot.inFlight = []) (hbatch : 0 ≤ config.batchSize) :
    snapshot.waiting config = (snapshot.eligible config).drop config.batchSize.toNat := by
  rw [waiting, next_eq_take h hbatch, candidates_eq_eligible h, List.length_take]
  by_cases hlength : config.batchSize.toNat ≤ (snapshot.eligible config).length
  · rw [min_eq_left hlength]
  · rw [min_eq_right (by omega), List.drop_length, List.drop_eq_nil_of_le (by omega)]

theorem resolve_eq_nil (h : snapshot.inFlight = []) : snapshot.marked.flatMap snapshot.resolve = [] := by
  rw [marked_eq_nil.mpr h, List.flatMap_nil]

theorem commentsOn_comments (hdistinct : (snapshot.queued.map (·.number)).Nodup) :
    commentsOn ((snapshot.eligible config).map (·.number)) (snapshot.comments config) =
      (snapshot.waiting config).mapIdx fun i pr => (pr.number, waitingComment (i + 1) (snapshot.waiting config).length pr.owns) := by
  have hrefused : commentsOn ((snapshot.eligible config).map (·.number)) (snapshot.free.filterMap fun pr => (ineligibleReason pr config).map fun reason =>
      .comment pr.number (ineligibleComment reason config.label pr.owns)) = [] := by
    apply List.filterMap_eq_nil_iff.mpr
    intro action haction
    obtain ⟨pr, hpr, hrefused⟩ := List.mem_filterMap.mp haction
    obtain ⟨reason, hreason, rfl⟩ := Option.map_eq_some_iff.mp hrefused
    apply if_neg
    intro hnumber
    obtain ⟨other, hother, heq⟩ := List.mem_map.mp hnumber
    obtain ⟨hqueued, heligible⟩ := List.mem_filter.mp hother
    have hsame : other = pr := List.inj_on_of_nodup_map hdistinct hqueued (List.mem_filter.mp hpr).1 heq
    rw [hsame, hreason, Option.isNone_some, Bool.and_false] at heligible
    cases heligible
  have hwaiting : ∀ pr ∈ snapshot.waiting config, pr.number ∈ (snapshot.eligible config).map (·.number) := by
    intro pr hpr
    obtain ⟨hfree, heligible⟩ := List.mem_filter.mp (List.mem_of_mem_drop hpr)
    obtain ⟨hqueued, hlanded⟩ := List.mem_filter.mp hfree
    rw [Bool.and_eq_true] at hlanded
    apply List.mem_map_of_mem
    rw [eligible, List.mem_filter, hlanded.1, heligible]
    exact ⟨hqueued, rfl⟩
  rw [comments, commentsOn_append, hrefused, List.nil_append]
  exact commentsOn_mapIdx hwaiting fun i pr => waitingComment (i + 1) (snapshot.waiting config).length pr.owns

end Snapshot

/-- Batches are formed first come, first served, whatever list of pull requests GitHub gives and in whatever order. -/
theorem batches_are_fifo (q : Queue) (hbatch : 0 < q.config.batchSize) {now : Int} {targetSHA : String} {prs : List PR}
    (hdistinct : (prs.map (·.number)).Nodup) {trace : List (Event Call.Ans)} {snapshot : Snapshot}
    (h : Try.Yields (q.loadQueue now targetSHA prs) trace snapshot) :
    (snapshot.queued.map (·.toPR)).Perm prs ∧ (snapshot.eligible q.config).Pairwise (fun a b => Before a.toPR b.toPR) ∧
    (snapshot.inFlight = [] →
      (snapshot.eligible q.config ≠ [] → forms (planTick snapshot q.config).actions =
        [(((snapshot.eligible q.config).take q.config.batchSize.toNat).map (·.number), targetSHA)]) ∧
      commentsOn ((snapshot.eligible q.config).map (·.number)) (planTick snapshot q.config).actions =
        ((snapshot.eligible q.config).drop q.config.batchSize.toNat).mapIdx fun i pr =>
          (pr.number, waitingComment (i + 1) ((snapshot.eligible q.config).drop q.config.batchSize.toNat).length pr.owns)) ∧
    ∀ prs' : List PR, prs'.Perm prs → q.loadQueue now targetSHA prs' = q.loadQueue now targetSHA prs := by
  obtain ⟨hqueued, htarget⟩ := Queue.queued_loadQueue h
  have hnumbers : (snapshot.queued.map (·.number)).Nodup := by
    have hsorted : ((sortFIFO prs).map (·.number)).Nodup := ((List.perm_insertionSort earlier prs).map _).nodup_iff.mpr hdistinct
    rw [← hqueued, List.map_map] at hsorted
    exact hsorted
  refine ⟨hqueued ▸ List.perm_insertionSort earlier prs, ?_, fun hnone => ⟨fun hsome => ?_, ?_⟩, fun prs' hperm => ?_⟩
  · have hbefore := before_sortFIFO hdistinct
    rw [← hqueued, List.pairwise_map] at hbefore
    exact hbefore.filter _
  · have hnext : snapshot.next q.config ≠ [] := by
      rw [Snapshot.next_eq_take hnone hbatch.le, ne_eq, List.take_eq_nil_iff]
      rintro (hzero | hempty)
      · omega
      · exact hsome hempty
    rw [planTick, Snapshot.resolve_eq_nil hnone, List.nil_append, forms_append, forms_comments.1, List.nil_append,
      if_neg (by rwa [List.isEmpty_iff]), Snapshot.next_eq_take hnone hbatch.le, htarget]
    rfl
  · have hform : ∀ actions : List Action, commentsOn ((snapshot.eligible q.config).map (·.number)) (actions ++
        if (snapshot.next q.config).isEmpty then [] else [.form ((snapshot.next q.config).map (·.number)) snapshot.targetSHA]) =
        commentsOn ((snapshot.eligible q.config).map (·.number)) actions := by
      intro actions
      split
      · rw [List.append_nil]
      · rw [commentsOn_append]
        exact List.append_nil _
    rw [planTick, hform, Snapshot.resolve_eq_nil hnone, List.nil_append, Snapshot.commentsOn_comments hnumbers,
      Snapshot.waiting_eq_drop hnone hbatch.le]
  · rw [Queue.loadQueue, Queue.loadQueue, sortFIFO_perm hdistinct hperm]

namespace Demo

def pairs : Queue where
  config := { target := "main", label := "queue", batchSize := 2, requiredChecks := [⟨"ci", []⟩], checkTimeout := 45 * Duration.minute }
  botLogin := "queue[bot]"
  glob := fun _ _ => false

def labeled (number labeledAt : Int) : PR :=
  { number, headSHA := "", headRef := "", baseRef := "main", sameRepo := true, draft := false, labeledAt, labeledBy := "alice" }

def line : Snapshot where
  now := 9
  targetSHA := "base"
  queued := [{ labeled 2 5 with labelerCanWrite := true }, { labeled 3 7 with labelerCanWrite := true }, { labeled 1 0 with labelerCanWrite := true }]
  inFlight := []

theorem loads_line : Try.Yields (pairs.loadQueue 9 "base" [labeled 1 0, labeled 3 7, labeled 2 5])
    [⟨.canWrite "alice", .ok true⟩, ⟨.statusComment 2 "queue[bot]", .ok .missing⟩, ⟨.statusComment 3 "queue[bot]", .ok .missing⟩,
      ⟨.statusComment 1 "queue[bot]", .ok .missing⟩] line :=
  .call (.call (.call (.call (.pure _))))

end Demo

/-- The second and the third are stacked, and the first waits alone. -/
theorem batches_are_fifo_of_three : ([Demo.labeled 1 0, Demo.labeled 3 7, Demo.labeled 2 5].map (·.number)).Nodup ∧
    forms (planTick Demo.line Demo.pairs.config).actions = [([2, 3], "base")] ∧
    commentsOn [2, 3, 1] (planTick Demo.line Demo.pairs.config).actions = [(1, waitingComment 1 1 [])] := by
  have h := (batches_are_fifo Demo.pairs (by decide) (by decide) Demo.loads_line).2.2.1 rfl
  exact ⟨by decide, h.1 (by decide), h.2⟩

end MergeQueue

end RunnerYard
