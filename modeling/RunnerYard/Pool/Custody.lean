import RunnerYard.Pool.Effects

/-!
# What a host may be running

The pool never sees a machine; it decides by flags, times and slots of its own. `Tidy` ties what it holds of one host to what the machine runs: a host that the pool believes to be booting for the first time, stopped or being started runs nothing that counts, and a launch under way is always covered by a reservation. Which containers count is a parameter, `Liveness`, because the pool's promises differ in it: what may not be killed is a process that still has time, what must be listed is any container that carries a lease.

Between two calls of a goroutine the others run. `Held`, `Claimed`, `Calm` and `Starting` are what a launch, a return, a creation and a start rely on in the meantime.
-/

namespace RunnerYard

open Interaction

namespace Pool

/-- Which containers count. `timed` says that one whose deadline has passed does not. -/
structure Liveness where
  live : Int → Bool → Container → Bool
  timed : Prop
  later : ∀ {t t' : Int} {up : Bool} {c : Container}, t ≤ t' → live t' up c = true → live t up c = true
  exited : ∀ {t : Int} {up : Bool} {c : Container}, live t up { c with running := false } = true → live t up c = true
  halted : ∀ {t : Int} {c : Container}, live t false { c with running := false } = false
  deadline : timed → ∀ {t : Int} {up : Bool} {c : Container}, live t up c = true → t ≤ c.deadline

def View.heardOf (v : View) : Int := latest [v.lastContact, v.firstSeen, v.bootSince]

/-- A host that no longer exists. Its ID is never given out again. -/
def Gone (w : World) (id : String) : Prop := w.machines.get id = none ∧ id ∈ w.used

section

variable (L : Liveness) (cfg : Config)

def Quiet (w : World) (id : String) : Prop := ∀ m ∈ w.machines.get id, ∀ c ∈ m.containers.rows, L.live w.clock m.up c = false

/-- The last moment at which something on a host can count, by what the pool knows. -/
def horizon (v : View) : Int := v.heardOf + cfg.maxLifetime + cfg.unreachableGrace

/-- What the pool holds of a host agrees with what the host may be running. -/
structure Tidy (w : World) (id : String) (v : View) : Prop where
  ready : v.phase = .ready → v.everReady = true
  unready : v.everReady = false → v.reserved = .empty
  own : v.ownBoot = true → v.everReady = false → Quiet L w id
  down : v.phase = .stopped ∨ v.phase = .starting → Quiet L w id ∧ v.reserved = .empty
  heard : L.timed → v.heardOf ≤ max 0 w.clock
  containers : L.timed → ∀ m ∈ w.machines.get id, ∀ c ∈ m.containers.rows, L.live w.clock m.up c = true → c.deadline ≤ horizon cfg v
  leases : ∀ r ∈ v.reserved.rows, ∃ lease ∈ w.leases, lease.id = r.2 ∧ (L.timed → lease.deadline ≤ horizon cfg v)

structure Named (w : World) (id : String) (v : View) : Prop where
  known : v.phase ≠ .creating → v.name = id ∧ id ∈ w.used
  creating : v.phase = .creating → isPlaceholder id = true ∧ v.reserved = .empty ∧ cfg.facts.canCreate = true

structure Sourced (w : World) : Prop where
  machines : ∀ id m, w.machines.get id = some m → id ∈ w.used
  names : cfg.facts.canCreate = true → ∀ id ∈ w.used, isPlaceholder id = false
  leaseIDs : (w.leases.map (·.id)).Nodup
  leases : L.timed → ∀ lease ∈ w.leases, lease.deadline ≤ w.clock + cfg.maxLifetime
  containers : L.timed → ∀ id, ∀ m ∈ w.machines.get id, ∀ c ∈ m.containers.rows, L.live w.clock m.up c = true →
    c.deadline ≤ w.clock + cfg.maxLifetime

structure Orderly (w : World) : Prop extends Sourced L cfg w where
  named : ∀ id h, w.pool.hosts.get id = some h → Named cfg w id h.view
  tidy : ∀ id h, w.pool.hosts.get id = some h → Gone w id ∨ Tidy L cfg w id h.view

/-! ### What a goroutine relies on -/

def Held (w : World) (id : String) (slot : Int) (leaseID : String) : Prop :=
  Gone w id ∨ ∃ h, w.pool.hosts.get id = some h ∧ h.view.reserved.get slot = some (slot, leaseID)

/-- Neither the host nor a launch under way has anything left that counts. -/
def Spent (w : World) (id : String) (v : View) : Prop :=
  Quiet L w id ∧ ∀ r ∈ v.reserved.rows, L.timed ∧ ∃ lease ∈ w.leases, lease.id = r.2 ∧ lease.deadline < w.clock

/-- A candidate that was heard of last so long ago that it is not asked, and may have reservations. -/
def Candidate.silent (c : Candidate) : Prop := c.previous ≠ .stopped ∧ c.reason = .unreachable

/-- A host is claimed as it exists, and stopped only if it is empty. -/
structure Candidate.Sane (c : Candidate) : Prop where
  exists_ : c.previous ≠ .creating
  settled : c.previous ≠ .starting
  staying : c.previous ≠ .stopping
  stop : c.stop = true → ¬c.silent

structure Claim (w : World) (c : Candidate) (sure : Bool) (v : View) : Prop where
  phase : v.phase = .deleting ∨ v.phase = .stopping
  ready : c.previous = .ready → v.everReady = true
  empty : ¬c.silent → v.reserved = .empty
  down : c.previous = .stopped → Quiet L w c.host.id
  sure : sure = true → (c.silent → L.timed) → Spent L w c.host.id v

/-- A host that is being returned; `sure` once nothing more is asked of it. -/
def Claimed (w : World) (sure : Bool) (c : Candidate) : Prop :=
  c.Sane ∧ (Gone w c.host.id ∨ ∃ h, w.pool.hosts.get c.host.id = some h ∧ Claim L w c sure h.view)

/-- A host that has just been created runs nothing unless the pool has seen it ready. -/
def Calm (w : World) (id : String) : Prop := Quiet L w id ∨ ∃ h, w.pool.hosts.get id = some h ∧ h.view.everReady = true

def Starting (w : World) (id : String) : Prop := Gone w id ∨ ∃ h, w.pool.hosts.get id = some h ∧ h.view.phase = .starting

end

variable {L : Liveness} {cfg : Config} {w w' : World} {id : String}

theorem Gone.quiet (h : Gone w id) : Quiet L w id := by
  intro m hm
  rw [h.1] at hm
  cases hm

theorem horizon_le {v v' : View} (h : v.heardOf ≤ v'.heardOf) : horizon cfg v ≤ horizon cfg v' := by
  unfold horizon
  omega

/-! ### Changes beside the pool -/

section

variable (L)

/-- Nothing started to run that counts. -/
structure Eased (w w' : World) : Prop where
  pool : w'.pool = w.pool
  clock : w.clock ≤ w'.clock
  leases : ∀ lease ∈ w.leases, lease ∈ w'.leases
  used : ∀ id ∈ w.used, id ∈ w'.used
  gone : ∀ id ∈ w.used, w.machines.get id = none → w'.machines.get id = none
  live : ∀ id, ∀ m' ∈ w'.machines.get id, ∀ c' ∈ m'.containers.rows, L.live w'.clock m'.up c' = true →
    ∃ m ∈ w.machines.get id, ∃ c ∈ m.containers.rows, L.live w.clock m.up c = true ∧ c.deadline = c'.deadline

end

namespace Eased

theorem refl (w : World) : Eased L w w where
  pool := rfl
  clock := le_refl _
  leases _ := id
  used _ := id
  gone _ _ := id
  live _ m hm c hc hlive := ⟨m, hm, c, hc, hlive, rfl⟩

variable (h : Eased L w w')

include h

theorem isGone (hgone : Gone w id) : Gone w' id := ⟨h.gone id hgone.2 hgone.1, h.used id hgone.2⟩

theorem quiet (hquiet : Quiet L w id) : Quiet L w' id := by
  intro m' hm' c' hc'
  by_contra hlive
  obtain ⟨m, hm, c, hc, hlive', -⟩ := h.live id m' hm' c' hc' (by simpa using hlive)
  rw [hquiet m hm c hc] at hlive'
  cases hlive'

theorem tidy {v : View} (htidy : Tidy L cfg w id v) : Tidy L cfg w' id v where
  ready := htidy.ready
  unready := htidy.unready
  own hown hready := h.quiet (htidy.own hown hready)
  down hphase := ⟨h.quiet (htidy.down hphase).1, (htidy.down hphase).2⟩
  heard htimed := by
    have hheard := htidy.heard htimed
    have hclock := h.clock
    omega
  containers htimed m' hm' c' hc' hlive := by
    obtain ⟨m, hm, c, hc, hlive', hdeadline⟩ := h.live id m' hm' c' hc' hlive
    rw [← hdeadline]
    exact htidy.containers htimed m hm c hc hlive'
  leases r hr := by
    obtain ⟨lease, hlease, hid⟩ := htidy.leases r hr
    exact ⟨lease, h.leases lease hlease, hid⟩

theorem named {v : View} (hnamed : Named cfg w id v) : Named cfg w' id v where
  known hphase := ⟨(hnamed.known hphase).1, h.used _ (hnamed.known hphase).2⟩
  creating := hnamed.creating

theorem sourced (hsourced : Sourced L cfg w) (hmachines : ∀ id m, w'.machines.get id = some m → id ∈ w'.used)
    (hnames : cfg.facts.canCreate = true → ∀ id ∈ w'.used, isPlaceholder id = false) (hleaseIDs : (w'.leases.map (·.id)).Nodup)
    (hleases : L.timed → ∀ lease ∈ w'.leases, lease.deadline ≤ w'.clock + cfg.maxLifetime) : Sourced L cfg w' where
  machines := hmachines
  names := hnames
  leaseIDs := hleaseIDs
  leases := hleases
  containers htimed id m' hm' c' hc' hlive := by
    obtain ⟨m, hm, c, hc, hlive', hdeadline⟩ := h.live id m' hm' c' hc' hlive
    have hbound := hsourced.containers htimed id m hm c hc hlive'
    have hclock := h.clock
    omega

theorem sourced_same (hsourced : Sourced L cfg w) (hmachines : ∀ id m, w'.machines.get id = some m → ∃ m, w.machines.get id = some m)
    (hused : w'.used = w.used) (hleases : w'.leases = w.leases) : Sourced L cfg w' := by
  refine h.sourced hsourced (fun id m' hm' => ?_) (hused ▸ hsourced.names) (hleases ▸ hsourced.leaseIDs) fun htimed lease hlease => ?_
  · obtain ⟨m, hm⟩ := hmachines id m' hm'
    exact hused ▸ hsourced.machines id m hm
  · have hbound := hsourced.leases htimed lease (hleases ▸ hlease)
    have hclock := h.clock
    omega

theorem orderly (horderly : Orderly L cfg w) (hsourced : Sourced L cfg w') : Orderly L cfg w' where
  toSourced := hsourced
  named id hs hget := h.named (horderly.named id hs (h.pool ▸ hget))
  tidy id hs hget := (horderly.tidy id hs (h.pool ▸ hget)).imp h.isGone h.tidy

theorem held {slot : Int} {leaseID : String} (hheld : Held w id slot leaseID) : Held w' id slot leaseID := by
  unfold Held
  rw [h.pool]
  exact hheld.imp_left h.isGone

theorem spent {v : View} (hspent : Spent L w id v) : Spent L w' id v := by
  refine ⟨h.quiet hspent.1, fun r hr => ?_⟩
  obtain ⟨htimed, lease, hlease, hid, hdeadline⟩ := hspent.2 r hr
  exact ⟨htimed, lease, h.leases lease hlease, hid, lt_of_lt_of_le hdeadline h.clock⟩

theorem claim {c : Candidate} {sure : Bool} {v : View} (hclaim : Claim L w c sure v) : Claim L w' c sure v :=
  { hclaim with
    down := fun hstopped => h.quiet (hclaim.down hstopped)
    sure := fun hsure htimed => h.spent (hclaim.sure hsure htimed) }

theorem claimed {c : Candidate} {sure : Bool} (hclaimed : Claimed L w sure c) : Claimed L w' sure c := by
  unfold Claimed
  rw [h.pool]
  refine ⟨hclaimed.1, hclaimed.2.imp h.isGone fun hheld => ?_⟩
  obtain ⟨hs, hget, hclaim⟩ := hheld
  exact ⟨hs, hget, h.claim hclaim⟩

theorem calm (hcalm : Calm L w id) : Calm L w' id := by
  unfold Calm
  rw [h.pool]
  exact hcalm.imp_left h.quiet

theorem starting (hstarting : Starting w id) : Starting w' id := by
  unfold Starting
  rw [h.pool]
  exact hstarting.imp_left h.isGone

end Eased

section

variable (L)

def Calmer (now : Int) (m m' : Machine) : Prop :=
  m'.host = m.host ∧ ∀ c' ∈ m'.containers.rows, L.live now m'.up c' = true →
    ∃ c ∈ m.containers.rows, L.live now m.up c = true ∧ c.deadline = c'.deadline

end

theorem calmer_halt (now : Int) (m : Machine) : Calmer L now m m.halt := by
  refine ⟨rfl, fun c' hc' hlive => ?_⟩
  obtain ⟨c, -, rfl⟩ := List.mem_map.mp hc'
  have hdead : L.live now m.halt.up { c with running := false } = false := L.halted
  rw [hdead] at hlive
  cases hlive

theorem calmer_boot (now : Int) (m : Machine) : Calmer L now m m.boot := by
  unfold Machine.boot
  split
  · exact ⟨rfl, fun c hc hlive => ⟨c, hc, hlive, rfl⟩⟩
  · exact ⟨rfl, fun c hc => absurd hc List.not_mem_nil⟩

theorem calmer_exit (now : Int) (slot : Int) (m : Machine) : Calmer L now m (m.exit slot) := by
  refine ⟨rfl, fun c' hc' hlive => ?_⟩
  obtain ⟨c, hc, rfl⟩ := List.mem_map.mp hc'
  refine ⟨c, hc, ?_, rfl⟩
  by_cases hslot : c.slot.index = slot
  · simp only [hslot, ne_eq, not_true_eq_false, decide_false, Bool.and_false] at hlive
    exact L.exited hlive
  · simp only [hslot, ne_eq, not_false_eq_true, decide_true, Bool.and_true] at hlive
    exact hlive

theorem calmer_filter (now : Int) (m : Machine) (keep : Container → Bool) :
    Calmer L now m { m with containers := m.containers.filter keep } :=
  ⟨rfl, fun c hc hlive => ⟨c, (List.mem_filter.mp hc).1, hlive, rfl⟩⟩

theorem Eased.put {m m' : Machine} (hget : w.machines.get m.host.id = some m) (h : Calmer L w.clock m m') :
    Eased L w { w with machines := w.machines.put m' } where
  pool := rfl
  clock := le_refl _
  leases _ := id
  used _ := id
  gone id _ hnone := by
    rw [Table.get_put]
    split
    · rename_i hid
      rw [hid, h.1, hget] at hnone
      cases hnone
    · exact hnone
  live id m₁ hm₁ c' hc' hlive := by
    rw [Table.get_put] at hm₁
    split at hm₁
    · rename_i hid
      rw [Option.mem_some_iff] at hm₁
      subst hm₁
      obtain ⟨c, hc, hlive', hdeadline⟩ := h.2 c' hc' hlive
      exact ⟨m, by rw [hid, h.1]; exact hget, c, hc, hlive', hdeadline⟩
    · exact ⟨m₁, hm₁, c', hc', hlive, rfl⟩

theorem Eased.updateMachine (id : String) {f : Machine → Machine} (hf : ∀ m, Calmer L w.clock m (f m)) :
    Eased L w (w.updateMachine id f) := by
  rcases updateMachine_cases w id f (fun m => (hf m).1) with heq | ⟨m, hget, -, heq⟩
  · rw [heq]
    exact .refl w
  · rw [heq]
    exact .put hget (hf m)

theorem eased_change (change : EnvChange) : Eased L w (w.change change) := by
  cases change with
  | pass duration =>
    exact
      { (Eased.refl w : Eased L w w) with
        clock := by simp [World.change]
        live := fun id m hm c hc hlive => ⟨m, hm, c, hc, L.later (by simp [World.change]) hlive, rfl⟩ }
  | exit hostID slot => exact .updateMachine hostID (calmer_exit w.clock slot)
  | halt hostID => exact .updateMachine hostID (calmer_halt w.clock)
  | boot hostID => exact .updateMachine hostID (calmer_boot w.clock)

theorem eased_noting (job : Job) : Eased L w (w.noting job) := by
  cases job with
  | launch lease grow => exact { Eased.refl w with leases := fun lease hlease => List.mem_cons_of_mem _ hlease }
  | _ => exact .refl w

theorem eased_made {host : Host} (hfresh : host.id ∉ w.used) :
    Eased L w { w with machines := w.machines.put { host, bornAt := w.clock }, used := host.id :: w.used } where
  pool := rfl
  clock := le_refl _
  leases _ := id
  used _ := List.mem_cons_of_mem _
  gone id hused hnone := by
    have hne : id ≠ host.id := fun hid => hfresh (hid ▸ hused)
    rw [Table.get_put, if_neg hne]
    exact hnone
  live id m hm c hc hlive := by
    rw [Table.get_put] at hm
    split at hm
    · rw [Option.mem_some_iff] at hm
      subst hm
      exact absurd hc List.not_mem_nil
    · exact ⟨m, hm, c, hc, hlive, rfl⟩

theorem eased_deleted (id : String) : Eased L w (w.removeMachine id) where
  pool := rfl
  clock := le_refl _
  leases _ := fun h => h
  used _ := fun h => h
  gone k _ hnone := by
    rw [World.removeMachine, Table.get_erase]
    split
    · rfl
    · exact hnone
  live k m hm c hc hlive := by
    rw [World.removeMachine, Table.get_erase] at hm
    split at hm
    · cases hm
    · exact ⟨m, hm, c, hc, hlive, rfl⟩

theorem eased_move {op : Call} {m m' : Machine} (hget : w.machines.get m.host.id = some m) (hmove : MachineMove w.clock op m m')
    (hop : ∀ host slot request, op ≠ .agentStart host slot request) : Eased L w { w with machines := w.machines.put m' } := by
  refine .put hget ?_
  cases hmove with
  | stopped => exact calmer_halt w.clock m
  | booted => exact calmer_boot w.clock m
  | started => exact absurd rfl (hop _ _ _)
  | removed => exact calmer_filter w.clock m _

end Pool

end RunnerYard
