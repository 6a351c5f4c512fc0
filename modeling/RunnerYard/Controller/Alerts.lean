import RunnerYard.Controller.System
import RunnerYard.Interaction.Runs

/-!
# Alerts

`alert.go`: what the alerter records and announces of the statuses it is shown, and the queue from which one goroutine delivers its messages. Both are used without a common lock. An update of the status takes its snapshot under the reporter's lock and shows it to the alerter under the alerter's own; `enqueue` is a push, a pop and a push on a channel that the health alerter, the condition watch and the delivering goroutine share.
-/

namespace RunnerYard

open Interaction

def alertQueueDepth : Nat := 32

def alertRepeatInterval : Int := Duration.hour

/-! ### What the alerter records -/

/-- The key `Health:Reason` of a status. No name of a health has a colon, so the pair stands for the text. -/
def FleetStatus.key (status : FleetStatus) : Health × String := (status.health, status.reason)

/-- `lastKey` is empty before the first observation. -/
structure Alerter where
  lastKey : Option (Health × String) := none
  lastSent : Int := 0
deriving DecidableEq, Repr

/-- A message to the operator: the status it is about, and whether it is a reminder. -/
structure Announcement where
  status : FleetStatus
  reminder : Bool
deriving DecidableEq, Repr

namespace Alerter

def observe (a : Alerter) (now : Int) (status : FleetStatus) : Alerter × Option Announcement :=
  if status.health = .starting then (a, none)
  else
    let transition : Bool := decide (some status.key ≠ a.lastKey)
    let reminder : Bool := !transition && status.health = .degraded && decide (alertRepeatInterval ≤ now - a.lastSent)
    if !transition && !reminder then (a, none)
    else if transition && status.health = .ready && a.lastKey = none then ({ lastKey := some status.key, lastSent := now }, none)
    else ({ lastKey := some status.key, lastSent := now }, some { status, reminder })

theorem observe_recorded {a : Alerter} {now : Int} {status : FleetStatus} (h : status.health ≠ .starting) :
    (a.observe now status).1.lastKey = some status.key := by
  unfold observe
  rw [if_neg h]
  by_cases hkey : some status.key = a.lastKey
  · simp only [hkey]
    split
    · rfl
    · split <;> rfl
  · simp only [hkey, ne_eq, not_false_eq_true, decide_true, Bool.not_true, Bool.false_and, Bool.true_and]
    split
    · rename_i hquiet
      simp at hquiet
    · split <;> rfl

theorem observe_announced {a : Alerter} {now : Int} {status : FleetStatus} : ((a.observe now status).2.toList.map Announcement.status).Sublist [status] := by
  unfold observe
  split
  · exact List.nil_sublist _
  · dsimp only
    split
    · exact List.nil_sublist _
    · split
      · exact List.nil_sublist _
      · exact List.Sublist.refl _

end Alerter

/-- A reporter with its alerter. `pending` are the snapshots not yet shown to the alerter, in order; `statuses` and `announced` record the run. -/
structure Reporting where
  reporter : StatusReporter
  alerter : Alerter := {}
  pending : List FleetStatus := []
  statuses : List FleetStatus := []
  announced : List Announcement := []

namespace Reporting

/-- The two halves of `update`: the change under the reporter's lock, and the observation of its snapshot. -/
inductive Label where
  | change (now : Int) (u : StatusUpdate)
  | observe (i : Nat) (now : Int)

def step : Label → Reporting → Option Reporting
  | .change now u, r =>
    let reporter := r.reporter.update now u
    some { r with reporter, pending := r.pending ++ [reporter.status], statuses := r.statuses ++ [reporter.status] }
  | .observe i now, r =>
    r.pending[i]?.map fun status =>
      let (alerter, sent) := r.alerter.observe now status
      { r with alerter, pending := r.pending.eraseIdx i, announced := r.announced ++ sent.toList }

/-- No update shows its snapshot before an earlier one has shown its own. -/
def InTurn (_ : Reporting) : Label → Prop
  | .change _ _ => True
  | .observe i _ => i = 0

instance (r : Reporting) : (label : Label) → Decidable (InTurn r label)
  | .change _ _ => instDecidableTrue
  | .observe i _ => inferInstanceAs (Decidable (i = 0))

/-- When no update is in progress the alerter has recorded the current status, unless that is `starting`, and what it announced is a subsequence of the statuses. -/
def Follows (r : Reporting) : Prop :=
  (r.pending = [] → r.reporter.status.health ≠ .starting → r.alerter.lastKey = some r.reporter.status.key) ∧
    (r.announced.map Announcement.status).Sublist r.statuses

structure Ordered (first : FleetStatus) (r : Reporting) (observed : List FleetStatus) : Prop where
  statuses : r.statuses = observed ++ r.pending
  current : r.reporter.status = r.statuses.getLastD first
  recorded : (observed.getLastD first).health ≠ .starting → r.alerter.lastKey = some (observed.getLastD first).key
  announced : (r.announced.map Announcement.status).Sublist observed

theorem Ordered.step {first : FleetStatus} {r r' : Reporting} {label : Label} {observed : List FleetStatus} (h : Ordered first r observed)
    (hturn : InTurn r label) (hstep : Reporting.step label r = some r') : ∃ observed', Ordered first r' observed' := by
  cases label with
  | change now u =>
    obtain rfl := Option.some.inj hstep
    exact ⟨observed, by simp [h.statuses], by simp, h.recorded, h.announced⟩
  | observe i now =>
    obtain rfl : i = 0 := hturn
    obtain ⟨status, hstatus, rfl⟩ := Option.map_eq_some_iff.mp hstep
    cases hpending : r.pending with
    | nil => simp [hpending] at hstatus
    | cons head rest =>
      obtain rfl : head = status := by simpa [hpending] using hstatus
      refine ⟨observed ++ [head], by simp [h.statuses, hpending], h.current, ?_, ?_⟩
      · intro hhealth
        rw [List.getLastD_concat] at hhealth ⊢
        exact Alerter.observe_recorded hhealth
      · rw [List.map_append]
        exact h.announced.append Alerter.observe_announced

/-- **Alert order.** Where updates show their snapshots in the order in which they took them, the alerter follows the status. -/
theorem follows_of_inTurn (s : Scaler) (budget : BudgetStatus) {r : Reporting}
    (h : Reach step InTurn { reporter := s.newStatusReporter budget } r) : Follows r := by
  obtain ⟨observed, hordered⟩ : ∃ observed, Ordered (s.newStatusReporter budget).status r observed := by
    refine h.invariant (P := fun r => ∃ observed, Ordered (s.newStatusReporter budget).status r observed) ⟨[], rfl, rfl, ?_, List.nil_sublist _⟩ ?_
    · exact fun hhealth => absurd rfl hhealth
    · rintro r r' label ⟨observed, hordered⟩ hturn hstep
      exact hordered.step hturn hstep
  constructor
  · intro hpending hhealth
    have hstatuses := hordered.statuses
    rw [hpending, List.append_nil] at hstatuses
    rw [hordered.current, hstatuses] at hhealth ⊢
    exact hordered.recorded hhealth
  · rw [hordered.statuses]
    exact hordered.announced.trans (List.sublist_append_left _ _)

def started : Reporting := { reporter := Demo.scaler.newStatusReporter ⟨0, 0, 0, 0, 0, "", 0⟩ }

def shown : List Label := [.change 1 (.githubActivity "x"), .observe 0 1, .change 2 (.degraded "f"), .observe 0 2, .change 3 .recovered, .observe 0 3]

theorem follows_of_inTurn_example :
    ((replay step shown started).map fun r => (r.pending.length, r.announced.map fun a => a.status.key)) = some (0, [(.degraded, "f"), (.ready, "")]) ∧
      ∀ r, replay step shown started = some r → Follows r :=
  ⟨by decide, fun _ hrun => follows_of_inTurn Demo.scaler _ (Reach.start.of_replay (by decide) hrun)⟩

/-- A failure and its end are observed in the wrong order: the fleet is ready, and the alerter has announced the failure last. -/
theorem follows_fails :
    ∃ r, replay step [.change 1 (.githubActivity "x"), .observe 0 1, .change 2 (.degraded "f"), .change 3 .recovered, .observe 1 3, .observe 0 3] started = some r ∧
      r.pending = [] ∧ r.reporter.status.key = (.ready, "") ∧ r.alerter.lastKey = some (.degraded, "f") ∧ ¬Follows r :=
  ⟨_, rfl, rfl, rfl, rfl, fun h => absurd (h.1 rfl (by decide)) (by decide)⟩

end Reporting

/-! ### The queue of messages -/

/-- The two that call `enqueue`; each calls it under a lock of its own. -/
inductive Producer where
  | health | conditions
deriving DecidableEq, Repr

/-- Where a call of `enqueue` stands: not under way, behind a push that found the queue full, or behind the pop that followed it. -/
inductive EnqueueCall where
  | idle
  | full (message : Nat)
  | popped (message : Nat)
deriving DecidableEq, Repr

/-- The channel and what became of the messages, numbered in the order in which they are handed to `enqueue`: `dropped` were popped to make room, and `lost` never pushed. -/
structure AlertQueue where
  queue : List Nat := []
  call : Producer → EnqueueCall := fun _ => .idle
  next : Nat := 0
  accepted : List Nat := []
  delivered : List Nat := []
  dropped : List Nat := []
  lost : List Nat := []

namespace AlertQueue

inductive Label where
  | enqueue (p : Producer)
  | advance (p : Producer)
  | deliver

def push (q : AlertQueue) (message : Nat) : AlertQueue :=
  { q with queue := q.queue ++ [message], accepted := q.accepted ++ [message] }

def pop (q : AlertQueue) : AlertQueue := { q with queue := q.queue.tail, dropped := q.dropped ++ q.queue.head?.toList }

def setCall (q : AlertQueue) (p : Producer) (call : EnqueueCall) : AlertQueue := { q with call := Function.update q.call p call }

/-- One operation on a channel of the given depth: the first push of a call, its next one, or the receipt of the oldest message. -/
def step (depth : Nat) : Label → AlertQueue → Option AlertQueue
  | .enqueue p, q =>
    if q.call p ≠ .idle then none
    else if q.queue.length < depth then some { q.push q.next with next := q.next + 1 }
    else some { q.setCall p (.full q.next) with next := q.next + 1 }
  | .advance p, q =>
    match q.call p with
    | .idle => none
    | .full message => some (q.pop.setCall p (.popped message))
    | .popped message =>
      if q.queue.length < depth then some ((q.push message).setCall p .idle)
      else some { q.setCall p .idle with lost := q.lost ++ [message] }
  | .deliver, q =>
    match q.queue with
    | [] => none
    | message :: rest => some { q with queue := rest, delivered := q.delivered ++ [message] }

def Quiet (q : AlertQueue) : Prop := q.call .health = .idle ∧ q.call .conditions = .idle

/-- Nothing else touches the queue while a call of `enqueue` is between its first and its last operation. -/
def Undisturbed (q : AlertQueue) : Label → Prop
  | .advance _ => True
  | _ => q.Quiet

instance (q : AlertQueue) : (label : Label) → Decidable (Undisturbed q label)
  | .advance _ => instDecidableTrue
  | .enqueue _ | .deliver => inferInstanceAs (Decidable (_ ∧ _))

/-- Each message handed to `enqueue` is delivered, queued or on its way, or was dropped after as many messages as the queue holds, none older than it, were accepted; and what was dropped or lost is older than all that is queued. -/
def DropsOldest (depth : Nat) (q : AlertQueue) : Prop :=
  (∀ n < q.next, n ∈ q.delivered ∨ n ∈ q.queue ∨ (∃ p, q.call p = .full n ∨ q.call p = .popped n) ∨
    n ∈ q.dropped ∧ depth ≤ q.accepted.countP fun m => n ≤ m) ∧
    ∀ n ∈ q.dropped ++ q.lost, ∀ m ∈ q.queue, n < m

/-- The queue when all messages before `k` have been dealt with. -/
structure Settled (depth k : Nat) (q : AlertQueue) : Prop where
  ascending : q.queue.Pairwise (· < ·)
  accepted : q.queue.Sublist q.accepted
  short : q.queue.length ≤ depth
  before : ∀ n ∈ q.queue, n < k
  dropped : ∀ n ∈ q.dropped, n < k ∧ (∀ m ∈ q.queue, n < m) ∧ depth ≤ q.accepted.countP fun m => n ≤ m
  kept : ∀ n < k, n ∈ q.delivered ∨ n ∈ q.queue ∨ n ∈ q.dropped
  lost : q.lost = []

namespace Settled

variable {depth k : Nat} {q : AlertQueue}

theorem push (h : Settled depth k q) (hroom : q.queue.length < depth) : Settled depth (k + 1) (q.push k) where
  ascending := by
    refine List.pairwise_append.mpr ⟨h.ascending, by simp, ?_⟩
    intro n hn m hm
    rw [List.mem_singleton.mp hm]
    exact h.before n hn
  accepted := h.accepted.append (List.Sublist.refl _)
  short := by
    rw [AlertQueue.push, List.length_append, List.length_singleton]
    omega
  before := by
    intro n hn
    rcases List.mem_append.mp hn with hn | hn
    · exact Nat.lt_succ_of_lt (h.before n hn)
    · rw [List.mem_singleton.mp hn]
      exact Nat.lt_succ_self k
  dropped := by
    intro n hn
    obtain ⟨hlt, hqueue, hcount⟩ := h.dropped n hn
    refine ⟨Nat.lt_succ_of_lt hlt, ?_, ?_⟩
    · intro m hm
      rcases List.mem_append.mp hm with hm | hm
      · exact hqueue m hm
      · rwa [List.mem_singleton.mp hm]
    · rw [AlertQueue.push, List.countP_append]
      omega
  kept := by
    intro n hn
    rcases Nat.lt_succ_iff_lt_or_eq.mp hn with hlt | rfl
    · rcases h.kept n hlt with hd | hq | hd
      · exact Or.inl hd
      · exact Or.inr (Or.inl (List.mem_append_left _ hq))
      · exact Or.inr (Or.inr hd)
    · exact Or.inr (Or.inl (by simp [AlertQueue.push]))
  lost := h.lost

theorem pop (h : Settled depth k q) (hfull : q.queue.length = depth) (hdepth : 0 < depth) :
    Settled depth k q.pop ∧ q.pop.queue.length + 1 = depth := by
  obtain ⟨oldest, rest, hqueue⟩ := List.exists_cons_of_length_pos (hfull ▸ hdepth)
  have hascending := h.ascending
  have haccepted := h.accepted
  have hbefore := h.before
  rw [hqueue] at hascending haccepted hbefore hfull
  have hold := List.pairwise_cons.mp hascending
  have hcount : depth ≤ q.accepted.countP fun m => oldest ≤ m := by
    calc depth = (oldest :: rest).countP fun m => oldest ≤ m := by
          rw [List.countP_eq_length.mpr, hfull]
          intro m hm
          rcases List.mem_cons.mp hm with rfl | hm
          · simp
          · simpa using (hold.1 m hm).le
      _ ≤ q.accepted.countP fun m => oldest ≤ m := haccepted.countP_le
  have hpop : q.pop = { q with queue := rest, dropped := q.dropped ++ [oldest] } := by simp [AlertQueue.pop, hqueue]
  rw [hpop]
  refine ⟨⟨hold.2, (List.sublist_cons_self _ _).trans haccepted, by simp only [List.length_cons] at hfull; show rest.length ≤ depth; omega,
    fun n hn => hbefore n (List.mem_cons_of_mem _ hn), ?_, ?_, h.lost⟩, by simpa using hfull⟩
  · intro n hn
    rcases List.mem_append.mp hn with hn | hn
    · obtain ⟨hlt, hall, hn⟩ := h.dropped n hn
      exact ⟨hlt, fun m hm => hall m (hqueue ▸ List.mem_cons_of_mem _ hm), hn⟩
    · rw [List.mem_singleton.mp hn]
      exact ⟨hbefore oldest List.mem_cons_self, hold.1, hcount⟩
  · intro n hn
    rcases h.kept n hn with hd | hq | hd
    · exact Or.inl hd
    · rw [hqueue, List.mem_cons] at hq
      rcases hq with rfl | hq
      · exact Or.inr (Or.inr (by simp))
      · exact Or.inr (Or.inl hq)
    · exact Or.inr (Or.inr (List.mem_append_left _ hd))

theorem deliver {message : Nat} {rest : List Nat} (h : Settled depth k q) (hqueue : q.queue = message :: rest) :
    Settled depth k { q with queue := rest, delivered := q.delivered ++ [message] } where
  ascending := (List.pairwise_cons.mp (hqueue ▸ h.ascending)).2
  accepted := (List.sublist_cons_self _ _).trans (hqueue ▸ h.accepted)
  short := by
    have hshort := h.short
    rw [hqueue, List.length_cons] at hshort
    exact Nat.le_of_succ_le hshort
  before n hn := h.before n (hqueue ▸ List.mem_cons_of_mem _ hn)
  dropped n hn := by
    obtain ⟨hlt, hall, hcount⟩ := h.dropped n hn
    exact ⟨hlt, fun m hm => hall m (hqueue ▸ List.mem_cons_of_mem _ hm), hcount⟩
  kept n hn := by
    rcases h.kept n hn with hd | hq | hd
    · exact Or.inl (List.mem_append_left _ hd)
    · rw [hqueue, List.mem_cons] at hq
      rcases hq with rfl | hq
      · exact Or.inl (by simp)
      · exact Or.inr (Or.inl hq)
    · exact Or.inr (Or.inr hd)
  lost := h.lost

theorem setCall (h : Settled depth k q) (p : Producer) (call : EnqueueCall) : Settled depth k (q.setCall p call) := ⟨h.1, h.2, h.3, h.4, h.5, h.6, h.7⟩

end Settled

def Steady (depth : Nat) (q : AlertQueue) : Prop :=
  (q.Quiet ∧ Settled depth q.next q) ∨
    ∃ p k, q.call = Function.update (fun _ => .idle) p (q.call p) ∧ q.next = k + 1 ∧ Settled depth k q ∧
      (q.call p = .full k ∧ q.queue.length = depth ∨ q.call p = .popped k ∧ q.queue.length + 1 = depth)

theorem Quiet.call_eq {q : AlertQueue} (h : q.Quiet) : q.call = fun _ => .idle := by
  funext p
  cases p
  · exact h.1
  · exact h.2

theorem Steady.step {depth : Nat} (hdepth : 0 < depth) {q q' : AlertQueue} {label : Label} (h : Steady depth q) (hok : Undisturbed q label)
    (hstep : AlertQueue.step depth label q = some q') : Steady depth q' := by
  cases label with
  | enqueue p =>
    have hquiet : q.Quiet := hok
    have hsettled : Settled depth q.next q := by
      rcases h with ⟨-, hsettled⟩ | ⟨p, k, -, -, -, hcall⟩
      · exact hsettled
      · simp [hquiet.call_eq] at hcall
    simp only [AlertQueue.step, hquiet.call_eq, ne_eq, not_true_eq_false, if_false] at hstep
    split at hstep
    · rename_i hroom
      obtain rfl := Option.some.inj hstep
      have hpush := hsettled.push hroom
      exact Or.inl ⟨hquiet, ⟨hpush.1, hpush.2, hpush.3, hpush.4, hpush.5, hpush.6, hpush.7⟩⟩
    · rename_i hroom
      obtain rfl := Option.some.inj hstep
      have hcall := hsettled.setCall p (.full q.next)
      refine Or.inr ⟨p, q.next, ?_, rfl, ⟨hcall.1, hcall.2, hcall.3, hcall.4, hcall.5, hcall.6, hcall.7⟩, Or.inl ⟨by simp [AlertQueue.setCall], ?_⟩⟩
      · simp [AlertQueue.setCall, hquiet.call_eq]
      · exact le_antisymm hsettled.short (Nat.le_of_not_lt hroom)
  | deliver =>
    have hquiet : q.Quiet := hok
    rcases h with ⟨-, hsettled⟩ | ⟨p, k, -, -, -, hcall⟩
    · cases hqueue : q.queue with
      | nil => simp [AlertQueue.step, hqueue] at hstep
      | cons message rest =>
        simp only [AlertQueue.step, hqueue, Option.some.injEq] at hstep
        subst hstep
        exact Or.inl ⟨hquiet, hsettled.deliver hqueue⟩
    · simp [hquiet.call_eq] at hcall
  | advance p =>
    rcases h with ⟨hquiet, -⟩ | ⟨p', k, hothers, hnext, hsettled, hcall⟩
    · simp [AlertQueue.step, hquiet.call_eq] at hstep
    · obtain rfl : p = p' := by
        by_contra hne
        have hidle : q.call p = .idle := by rw [hothers, Function.update_of_ne hne]
        simp [AlertQueue.step, hidle] at hstep
      rcases hcall with ⟨hcall, hlength⟩ | ⟨hcall, hlength⟩
      · simp only [AlertQueue.step, hcall, Option.some.injEq] at hstep
        subst hstep
        obtain ⟨hpop, hshort⟩ := hsettled.pop hlength hdepth
        refine Or.inr ⟨p, k, ?_, hnext, hpop.setCall p _, Or.inr ⟨by simp [AlertQueue.setCall], hshort⟩⟩
        rw [AlertQueue.setCall, AlertQueue.pop, hothers]
        simp
      · simp only [AlertQueue.step, hcall, if_pos (show q.queue.length < depth by omega), Option.some.injEq] at hstep
        subst hstep
        refine Or.inl ⟨?_, ?_⟩
        · have hidle : Function.update q.call p .idle = fun _ => .idle := by
            rw [hothers]
            simp
          exact ⟨congrFun hidle _, congrFun hidle _⟩
        · show Settled depth q.next _
          rw [hnext]
          exact (hsettled.push (by omega)).setCall p .idle

/-- **Alert queue.** If nothing else touches the queue during an `enqueue`, a message is delivered, or dropped as the oldest of a full queue. -/
theorem dropsOldest_of_undisturbed {q : AlertQueue} (h : Reach (step alertQueueDepth) Undisturbed {} q) : DropsOldest alertQueueDepth q := by
  have hsteady : Steady alertQueueDepth q := by
    refine h.invariant (P := Steady alertQueueDepth) (Or.inl ⟨⟨rfl, rfl⟩, ?_⟩) (Steady.step (by decide))
    exact ⟨List.Pairwise.nil, List.nil_sublist _, Nat.zero_le _, by simp, by simp, fun n hn => absurd hn (Nat.not_lt_zero n), rfl⟩
  obtain ⟨k, hsettled, hlast⟩ : ∃ k, Settled alertQueueDepth k q ∧ ∀ n < q.next, n < k ∨ ∃ p, q.call p = .full n ∨ q.call p = .popped n := by
    rcases hsteady with ⟨-, hsettled⟩ | ⟨p, k, -, hnext, hsettled, hcall⟩
    · exact ⟨q.next, hsettled, fun n hn => Or.inl hn⟩
    · refine ⟨k, hsettled, fun n hn => ?_⟩
      rcases Nat.lt_succ_iff_lt_or_eq.mp (hnext ▸ hn) with hlt | rfl
      · exact Or.inl hlt
      · exact Or.inr ⟨p, hcall.imp And.left And.left⟩
  constructor
  · intro n hn
    rcases hlast n hn with hlt | hcall
    · rcases hsettled.kept n hlt with hd | hq | hd
      · exact Or.inl hd
      · exact Or.inr (Or.inl hq)
      · exact Or.inr (Or.inr (Or.inr ⟨hd, (hsettled.dropped n hd).2.2⟩))
    · exact Or.inr (Or.inr (Or.inl hcall))
  · rw [hsettled.lost, List.append_nil]
    exact fun n hn => (hsettled.dropped n hn).2.1

def overfull : List Label := List.replicate 33 (.enqueue .health) ++ [.advance .health]

/-- Nothing disturbs the call: the first message is dropped for the last one. -/
theorem dropsOldest_of_undisturbed_example :
    ((replay (step alertQueueDepth) (overfull ++ [.advance .health]) {}).map fun q => (q.dropped, q.lost, q.queue.length)) = some ([0], [], 32) ∧
      ∀ q, replay (step alertQueueDepth) (overfull ++ [.advance .health]) {} = some q → DropsOldest alertQueueDepth q :=
  ⟨by decide +kernel, fun _ hrun => dropsOldest_of_undisturbed (Reach.start.of_replay (by decide +kernel) hrun)⟩

/-- The condition watch takes the room that a health alert has made: the alert is lost and 31 older messages stay. -/
theorem dropsOldest_fails :
    ∃ q, replay (step alertQueueDepth) (overfull ++ [.enqueue .conditions, .advance .health]) {} = some q ∧ q.lost = [32] ∧ q.dropped = [0] ∧ 1 ∈ q.queue ∧
      ¬DropsOldest alertQueueDepth q := by
  have hrun : ((replay (step alertQueueDepth) (overfull ++ [.enqueue .conditions, .advance .health]) {}).map
      fun q => (q.lost, q.dropped, decide (1 ∈ q.queue))) = some ([32], [0], true) := by decide +kernel
  obtain ⟨q, hq, hends⟩ := Option.map_eq_some_iff.mp hrun
  rw [Prod.mk.injEq, Prod.mk.injEq, decide_eq_true_eq] at hends
  refine ⟨q, hq, hends.1, hends.2.1, hends.2.2, fun hdrops => ?_⟩
  have hlt := hdrops.2 32 (by rw [hends.1]; simp) 1 hends.2.2
  omega

end AlertQueue

end RunnerYard
