import RunnerYard.Pool.Goroutines

/-!
# The pool kills no job

A host is deleted or stopped only when no process on it has time left. Two reasons skip the last listing: a boot that never finished, and a host silent for longer than any job may run. The first rests on the pool's belief that a young host is one it has just created; after a restart that belief is formed by age alone, and `restart_kills_job` is a run in which it is wrong.
-/

namespace RunnerYard

open Interaction

namespace Pool

def unexpired : Liveness where
  live t _ c := c.running && decide (t ≤ c.deadline)
  timed := True
  later hle hlive := by
    simp only [Bool.and_eq_true, decide_eq_true_eq] at hlive ⊢
    exact ⟨hlive.1, le_trans hle hlive.2⟩
  exited hlive := by simp at hlive
  halted := by simp
  deadline _ {t up c} hlive := by
    have hlive' : c.running = true ∧ t ≤ c.deadline := by simpa using hlive
    exact hlive'.2

instance (L : Liveness) (w : World) (id : String) : Decidable (Quiet L w id) :=
  inferInstanceAs (Decidable (∀ m ∈ w.machines.get id, ∀ c ∈ m.containers.rows, L.live w.clock m.up c = false))

instance (w : World) (host : Host) (slots : List Slot) : Decidable (Accurate w host slots) :=
  inferInstanceAs (Decidable (∀ m ∈ w.machines.get host.id, (slots.map Slot.identity).Perm (m.containers.rows.map fun c => c.slot.identity)))

/-- What the pool may expect: a lease runs no longer than the maximum lifetime, an agent that answers lists its containers, and the source names its own hosts, each once and none as a placeholder. -/
def realistic (cfg : Config) (s : System) : Label → Bool
  | .spawn (.launch lease _) => lease.deadline ≤ s.world.clock + cfg.maxLifetime
  | .advance i choice =>
    match s.threads.pending i, choice with
    | some (_, .applyHosts _ listed), _ => decide (listed.map (·.id)).Nodup && listed.all (·.id ∈ s.world.used)
    | some (_, .createHost _), choice => choice.makes.all fun host => !isPlaceholder host.id
    | some (_, .agentList host), .slots (.ok slots) => Accurate s.world host slots
    | _, _ => true
  | _ => true

/-- When a listing is applied, a host the pool takes for its own fresh boot or for stopped runs nothing that counts, one it now takes for stopped is not reserved either, and one it drops is gone. -/
def sheltered (L : Liveness) (cfg : Config) (s : System) : Label → Bool
  | .advance i _ =>
    match s.threads.pending i with
    | some (_, .applyHosts started listed) =>
      (listed.all fun host =>
        match s.world.pool.hosts.get host.id with
        | none =>
          let h := found cfg s.world.clock host
          !(h.ownBoot || h.phase = .stopped) || Quiet L s.world host.id
        | some h =>
          h.phase = .stopped || (relisted cfg started s.world.clock host h).phase ≠ .stopped ||
            (Quiet L s.world host.id && h.reserved = .empty)) &&
      s.world.pool.hosts.rows.all fun h => keeps started listed h || (s.world.machines.get h.id).isNone
    | _ => true
  | _ => true

variable {cfg : Config}

theorem hostsFit_of_sheltered {L : Liveness} {s : System} {i : Nat} {choice : Choice} {job : Job} {started : Int} {listed : List Host}
    (hpending : s.threads.pending i = some (job, .applyHosts started listed)) (hnodup : (listed.map (·.id)).Nodup)
    (hused : ∀ host ∈ listed, host.id ∈ s.world.used) (hsheltered : sheltered L cfg s (.advance i choice) = true) :
    HostsFit L cfg s.world started listed := by
  simp only [sheltered, hpending, Bool.and_eq_true, List.all_eq_true, Bool.or_eq_true] at hsheltered
  obtain ⟨hlisted, hdropped⟩ := hsheltered
  refine ⟨hnodup, hused, fun host hmem hnone hshelter => ?_, fun host hmem h hget hphase hstopped => ?_, fun h hmem hkeeps => ?_⟩
  · have hhost := hlisted host hmem
    simp only [hnone, Bool.or_eq_true, Bool.not_eq_true', Bool.or_eq_false_iff, decide_eq_false_iff_not, decide_eq_true_eq] at hhost
    rcases hhost with ⟨hown, hphase⟩ | hquiet
    · rcases hshelter with hshelter | hshelter
      · rw [hown] at hshelter
        cases hshelter
      · exact absurd hshelter hphase
    · exact hquiet
  · have hhost := hlisted host hmem
    rw [Option.mem_def] at hget
    simp only [hget] at hhost
    simpa [hphase, hstopped] using hhost
  · simpa [hkeeps] using hdropped h hmem

theorem admitted_of_sheltered {L : Liveness} {s : System} {label : Label} (hrealistic : realistic cfg s label = true)
    (hsheltered : sheltered L cfg s label = true) : Admitted L cfg s label := by
  cases label with
  | env | restart => trivial
  | spawn job =>
    cases job with
    | launch lease grow => exact fun _ => of_decide_eq_true hrealistic
    | _ => trivial
  | advance i choice =>
    rintro ⟨job, op⟩ hpending
    simp only [realistic, show s.threads.pending i = some (job, op) from hpending] at hrealistic
    cases op with
    | applyHosts started listed =>
      simp only [Bool.and_eq_true, decide_eq_true_eq, List.all_eq_true] at hrealistic
      exact hostsFit_of_sheltered hpending hrealistic.1 hrealistic.2 hsheltered
    | createHost image =>
      intro host hmakes
      simpa using (Option.all_eq_true _ _).mp hrealistic host hmakes
    | agentList host =>
      cases choice with
      | slots answer =>
        cases answer with
        | ok slots =>
          have haccurate : Accurate s.world host slots := of_decide_eq_true hrealistic
          exact haccurate
        | error err => trivial
      | _ => trivial
    | _ => trivial

theorem safe_initial {L : Liveness} {clock : Int} {machines : Table fun m : Machine => m.host.id}
    (hnames : cfg.facts.canCreate = true → ∀ m ∈ machines.rows, isPlaceholder m.host.id = false)
    (hdeadlines : L.timed → ∀ m ∈ machines.rows, ∀ c ∈ m.containers.rows, c.deadline ≤ clock + cfg.maxLifetime) :
    (System.initial cfg clock machines).Safe L cfg := by
  refine CrewOutline.CrewSafe.empty ?_
  have hmem : ∀ id m, machines.get id = some m → m ∈ machines.rows ∧ m.host.id = id := fun id m hm => Table.get_eq_some_iff.mp hm
  exact
    { machines := fun id m hm => List.mem_map.mpr ⟨m, hmem id m hm⟩
      names := fun hcreate id hused => by
        obtain ⟨m, hm, rfl⟩ := List.mem_map.mp hused
        exact hnames hcreate m hm
      leaseIDs := List.nodup_nil
      leases := fun _ lease hlease => absurd hlease List.not_mem_nil
      containers := fun htimed id m hm c hc _ => hdeadlines htimed m (hmem id m hm).1 c hc
      named := fun id h hget => by cases hget
      tidy := fun id h hget => by cases hget }

theorem quiet_of_claimed {L : Liveness} {w : World} {c : Candidate} (htimed : L.timed) (h : Claimed L w true c) : Quiet L w c.host.id := by
  rcases h.2 with hgone | ⟨r, hr, hclaim⟩
  · exact hgone.quiet
  · exact (hclaim.sure rfl fun _ => htimed).1

/-- A pool that `New` accepts, on machines that hold nothing beyond the maximum lifetime, deletes and stops only hosts on which no process has time left, in every run in which each host listing finds the pool sheltered. -/
theorem returned_host_runs_no_job {raw : Config} (hcfg : raw.checked = .ok cfg) {clock : Int} {machines : Table fun m : Machine => m.host.id}
    (hnames : cfg.facts.canCreate = true → ∀ m ∈ machines.rows, isPlaceholder m.host.id = false)
    (hdeadlines : ∀ m ∈ machines.rows, ∀ c ∈ m.containers.rows, c.deadline ≤ clock + cfg.maxLifetime) {s : System}
    (hreach : Reach (System.step cfg) (fun s label => realistic cfg s label = true ∧ sheltered unexpired cfg s label = true)
      (System.initial cfg clock machines) s) {label : Label} {job : Job} {op : Call} {choice : Choice} {id : String}
    (hmade : s.made label = some (job, op, choice)) (hop : op = .deleteHost id ∨ op = .stopHost id) :
    ∀ m ∈ s.world.machines.get id, ∀ c ∈ m.containers.rows, ¬(c.running = true ∧ s.world.clock ≤ c.deadline) := by
  have hgrace : 0 ≤ cfg.unreachableGrace := le_of_lt (Config.unreachableGrace_pos hcfg)
  have hsafe : s.Safe unexpired cfg :=
    hreach.invariant (safe_initial hnames fun _ => hdeadlines) fun h hok hstep => h.step hgrace (admitted_of_sheltered hok.1 hok.2) hstep
  have hclaimed : ∃ c, c.host.id = id ∧ Claimed unexpired s.world true c := by
    cases label with
    | advance i given =>
      simp only [System.made, Option.map_eq_some_iff, Prod.mk.injEq] at hmade
      obtain ⟨⟨job', op'⟩, hpending, rfl, rfl, rfl⟩ := hmade
      have hfit := (hsafe.guard (lawful hgrace) hpending).1
      rcases hop with rfl | rfl
      · exact hfit
      · obtain ⟨c, hid, -, hc⟩ := hfit
        exact ⟨c, hid, hc⟩
    | _ => cases hmade
  obtain ⟨c, rfl, hc⟩ := hclaimed
  intro m hm k hk hlive
  have hquiet := quiet_of_claimed trivial hc m hm k hk
  simp [unexpired, hlive] at hquiet

/-- A host that has been empty for three minutes is asked once more and deleted. -/
def idleReturn : List Label :=
  Demo.maintenance (some [Demo.host]) [(Demo.host, .ok Demo.info)] [(Demo.host, .ok [])] ++ .advance 0 .none ::
    .env (.pass (3 * Duration.minute).toNat) :: Demo.maintenance (some [Demo.host]) [] [(Demo.host, .ok [])] ++ Demo.calls [(0, .slots (.ok []))]

theorem returned_host_runs_no_job_when_idle : ∃ s : System, s.made (.advance 0 (.done none true)) = some (.maintain, .deleteHost "7", .done none true) ∧
    ∀ m ∈ s.world.machines.get "7", ∀ c ∈ m.containers.rows, ¬(c.running = true ∧ s.world.clock ≤ c.deadline) := by
  have hok : Obeys (System.step Demo.small) (fun s label => realistic Demo.small s label = true ∧ sheltered unexpired Demo.small s label = true)
      idleReturn (System.initial Demo.small Demo.noon Demo.machines) := by decide +kernel
  have hrun : ∃ s ∈ replay (System.step Demo.small) idleReturn (System.initial Demo.small Demo.noon Demo.machines),
      s.made (.advance 0 (.done none true)) = some (.maintain, .deleteHost "7", .done none true) := by decide +kernel
  obtain ⟨s, hs, hmade⟩ := hrun
  have hcfg : Demo.raw.checked = .ok Demo.small := rfl
  exact ⟨s, hmade, returned_host_runs_no_job hcfg (by decide) (by decide) (Reach.start.of_replay hok hs) hmade (Or.inl rfl)⟩

/-- In the same runs, what the pool holds of each host that exists agrees with what runs there. -/
theorem pool_agrees_with_its_hosts {raw : Config} (hcfg : raw.checked = .ok cfg) {clock : Int} {machines : Table fun m : Machine => m.host.id}
    (hnames : cfg.facts.canCreate = true → ∀ m ∈ machines.rows, isPlaceholder m.host.id = false)
    (hdeadlines : ∀ m ∈ machines.rows, ∀ c ∈ m.containers.rows, c.deadline ≤ clock + cfg.maxLifetime) {s : System}
    (hreach : Reach (System.step cfg) (fun s label => realistic cfg s label = true ∧ sheltered unexpired cfg s label = true)
      (System.initial cfg clock machines) s) {id : String} {h : HostState} (hget : s.world.pool.hosts.get id = some h) :
    Gone s.world id ∨ Tidy unexpired cfg s.world id h.view := by
  have hgrace : 0 ≤ cfg.unreachableGrace := le_of_lt (Config.unreachableGrace_pos hcfg)
  have hsafe : s.Safe unexpired cfg :=
    hreach.invariant (safe_initial hnames fun _ => hdeadlines) fun h hok hstep => h.step hgrace (admitted_of_sheltered hok.1 hok.2) hstep
  exact hsafe.inv.tidy id h hget

theorem pool_agrees_with_its_hosts_when_idle : ∃ s : System, ∃ h, s.world.pool.hosts.get "7" = some h ∧
    (Gone s.world "7" ∨ Tidy unexpired Demo.small s.world "7" h.view) := by
  have hrun : ∃ s ∈ replay (System.step Demo.small) idleReturn (System.initial Demo.small Demo.noon Demo.machines),
      (s.world.pool.hosts.get "7").isSome = true := by decide +kernel
  obtain ⟨s, hs, hsome⟩ := hrun
  obtain ⟨h, hget⟩ := Option.isSome_iff_exists.mp hsome
  have hcfg : Demo.raw.checked = .ok Demo.small := rfl
  exact ⟨s, h, hget, pool_agrees_with_its_hosts hcfg (by decide) (by decide) (Reach.start.of_replay (by decide +kernel) hs) hget⟩

/-- A launch finds the pool full; a host is created for it and gets ready, and a second launch starts its container there. -/
def firstJob : List Label :=
  [.spawn (.launch (Demo.lease "a") true), .advance 0 .none, .advance 0 .none] ++
    Demo.maintenance (some []) [] [] ++ .advance 0 .none :: Demo.calls [(0, .created (.ok Demo.fresh) none)] ++ .advance 0 .none ::
    Demo.maintenance none [(Demo.fresh, .ok Demo.info)] [(Demo.fresh, .ok [])] ++ .advance 0 .none ::
    .spawn (.launch (Demo.lease "b") true) :: Demo.calls [(1, .started (.ok { index := 0, state := "started" }) true)] ++ [.advance 0 .none]

/-- The controller restarts, and for ten minutes the host's agent does not answer. -/
def silentBoot : List Label :=
  .restart :: Demo.maintenance (some [Demo.fresh]) [(Demo.fresh, .error .unreachable)] [] ++ .advance 0 .none ::
    .env (.pass (11 * Duration.minute).toNat) :: Demo.maintenance (some [Demo.fresh]) [(Demo.fresh, .error .unreachable)] []

/-- The new pool takes the host for its own fresh boot, and deletes it for a boot time-out while its job has most of an hour left. -/
theorem restart_kills_job : ∃ s : System,
    Reach (System.step Demo.small) (fun s label => realistic Demo.small s label = true) (System.initial Demo.small Demo.noon .empty) s ∧
    s.made (.advance 0 (.done none true)) = some (.maintain, .deleteHost "8", .done none true) ∧
    ∃ m ∈ s.world.machines.get "8", ∃ c ∈ m.containers.rows, c.running = true ∧ s.world.clock + 45 * Duration.minute ≤ c.deadline := by
  have hok : Obeys (System.step Demo.small) (fun s label => realistic Demo.small s label = true) (firstJob ++ silentBoot)
      (System.initial Demo.small Demo.noon .empty) := by decide +kernel
  have hrun : ∃ s ∈ replay (System.step Demo.small) (firstJob ++ silentBoot) (System.initial Demo.small Demo.noon .empty),
      s.made (.advance 0 (.done none true)) = some (.maintain, .deleteHost "8", .done none true) ∧
      ∃ m ∈ s.world.machines.get "8", ∃ c ∈ m.containers.rows, c.running = true ∧ s.world.clock + 45 * Duration.minute ≤ c.deadline := by
    decide +kernel
  obtain ⟨s, hs, hfacts⟩ := hrun
  exact ⟨s, Reach.start.of_replay hok hs, hfacts⟩

end Pool

end RunnerYard
