import RunnerYard.Pool.Custody

/-!
# What a call keeps

Each call is made under conditions, `Fit`, that its goroutine must have established, and a host listing is one the pool may act on, `HostsFit`. Under them every call keeps the pool orderly and keeps what the other goroutines rely on. The case analyses follow `Executed`: a section changes the pool's entries as `HostMove` says, and of the requests only the start of a container can make a host run more.
-/

namespace RunnerYard

open Interaction

namespace Pool

section

variable (L : Liveness) (cfg : Config)

/-- A host listing by which the pool does not lose sight of what a host may be running. -/
structure HostsFit (w : World) (started : Int) (listed : List Host) : Prop where
  nodup : (listed.map (·.id)).Nodup
  used : ∀ host ∈ listed, host.id ∈ w.used
  /-- A host that the pool takes for its own fresh boot, or for stopped, when it first sees it. -/
  found : ∀ host ∈ listed, w.pool.hosts.get host.id = none →
    ((found cfg w.clock host).ownBoot = true ∨ (found cfg w.clock host).phase = .stopped) → Quiet L w host.id
  /-- A host that the pool takes for stopped from now on. -/
  stopped : ∀ host ∈ listed, ∀ h ∈ w.pool.hosts.get host.id, h.phase ≠ .stopped →
    (relisted cfg started w.clock host h).phase = .stopped → Quiet L w host.id ∧ h.reserved = .empty
  dropped : ∀ h ∈ w.pool.hosts.rows, keeps started listed h = false → w.machines.get h.id = none

def Fit (w : World) : Call → Prop
  | .reserve leaseID => ∃ lease ∈ w.leases, lease.id = leaseID
  | .agentStart host slot request => ∃ lease ∈ w.leases, lease.deadline = request.deadline ∧ Held w host.id slot lease.id
  | .restorePhase id previous => ∃ c sure, c.host.id = id ∧ c.previous = previous ∧ Claimed L w sure c
  | .hostStoppedAt id => ∃ c, c.host.id = id ∧ c.stop = true ∧ Claimed L w true c
  | .deleteHost id => ∃ c, c.host.id = id ∧ Claimed L w true c
  | .stopHost id => ∃ c, c.host.id = id ∧ c.stop = true ∧ Claimed L w true c
  | .forget id => Gone w id
  | .grow => cfg.facts.canCreate = true
  | .createHost _ => cfg.facts.canCreate = true
  | .createFinished key _ result =>
    cfg.facts.canCreate = true ∧ isPlaceholder key = true ∧ ∀ host, result = .ok host → host.id ∈ w.used ∧ Calm L w host.id
  | .startFinished id _ => Starting w id
  | _ => True

end

def Call.frees : Call → Option (String × Int)
  | .release id slot | .holdSuspect id slot _ | .commit id slot _ _ => some (id, slot)
  | _ => none

def Call.returns : Call → Option String
  | .restorePhase id _ | .hostStoppedAt id => some id
  | _ => none

variable {L : Liveness} {cfg : Config} {w : World} {op : Call} {id : String}

variable {h : HostState}

theorem gone_of_drop (hdrop : HostDrop op h) (horderly : Orderly L cfg w) (hget : w.pool.hosts.get h.id = some h)
    (hfit : Fit L cfg w op) (hhosts : ∀ started listed, op = .applyHosts started listed → HostsFit L cfg w started listed) :
    Gone w h.id ∨ h.view.phase = .creating ∧ w.machines.get h.id = none := by
  have hnamed := horderly.named h.id h hget
  -- a placeholder is not the ID of a host
  have hplaceholder : cfg.facts.canCreate = true → isPlaceholder h.id = true → h.view.phase = .creating ∧ w.machines.get h.id = none := by
    intro hcreate hid
    have hunused : h.id ∉ w.used := by
      intro hused
      rw [horderly.names hcreate h.id hused] at hid
      cases hid
    constructor
    · by_contra hphase
      exact hunused (hnamed.known hphase).2
    · cases hmachine : w.machines.get h.id with
      | none => rfl
      | some m => exact absurd (horderly.machines h.id m hmachine) hunused
  cases hdrop with
  | unlisted hkeeps =>
    have hnone := (hhosts _ _ rfl).dropped h (Table.mem_of_get hget) hkeeps
    by_cases hphase : h.view.phase = .creating
    · exact Or.inr ⟨hphase, hnone⟩
    · exact Or.inl ⟨hnone, (hnamed.known hphase).2⟩
  | forgotten => exact Or.inl hfit
  | finished => exact Or.inr (hplaceholder hfit.1 hfit.2.1)
  | overwritten hid => exact Or.inr (hplaceholder hfit hid)

theorem quiet_of_calm (hdrop : ∀ old, w.pool.hosts.get h.id = some old → HostDrop op old) (horderly : Orderly L cfg w)
    (hfit : Fit L cfg w op) (hhosts : ∀ started listed, op = .applyHosts started listed → HostsFit L cfg w started listed)
    (hcalm : Calm L w h.id) : Quiet L w h.id := by
  rcases hcalm with hquiet | ⟨old, hold, -⟩
  · exact hquiet
  · have hid : old.id = h.id := Table.key_of_get hold
    rw [← hid] at hold ⊢
    rcases gone_of_drop (hdrop old (hid ▸ hold)) horderly hold hfit hhosts with hgone | ⟨-, hnone⟩
    · exact hgone.quiet
    · intro m hm
      rw [hnone] at hm
      cases hm

/-! ### A host that is entered -/

theorem named_new (hnew : HostNew cfg w.clock op h) (hfit : Fit L cfg w op)
    (hhosts : ∀ started listed, op = .applyHosts started listed → HostsFit L cfg w started listed) : Named cfg w h.id h.view := by
  cases hnew with
  | found hmem hvalid =>
    rename_i host
    have hid := found_id cfg w.clock host
    have hused := (hhosts _ _ rfl).used host hmem
    refine ⟨fun _ => ⟨?_, hid ▸ hused⟩, fun hphase => ?_⟩
    · unfold found
      split <;> rfl
    · unfold found at hphase
      split at hphase <;> cases hphase
  | creating seq => exact ⟨fun hphase => absurd rfl hphase, fun _ => ⟨isPlaceholder_placeholder seq, rfl, hfit⟩⟩
  | created hvalid =>
    rename_i host
    exact ⟨fun _ => ⟨rfl, (hfit.2.2 host rfl).1⟩, fun hphase => by cases hphase⟩

theorem tidy_entered {v : View} (hgrace : 0 ≤ cfg.unreachableGrace) (hsourced : Sourced L cfg w) (hready : v.phase ≠ .ready)
    (hreserved : v.reserved = .empty) (hquiet : v.ownBoot = true ∨ v.phase = .stopped ∨ v.phase = .starting → Quiet L w id)
    (hcontact : v.lastContact = 0) (hseen : v.firstSeen = w.clock) (hboot : v.bootSince = 0) : Tidy L cfg w id v where
  ready hphase := absurd hphase hready
  unready _ := hreserved
  own hown _ := hquiet (Or.inl hown)
  down hphase := ⟨hquiet (Or.inr hphase), hreserved⟩
  heard _ := by
    simp only [View.heardOf, latest, hcontact, hseen, hboot, List.foldl_cons, List.foldl_nil]
    omega
  containers htimed m hm c hc hlive := by
    have hbound := hsourced.containers htimed id m hm c hc hlive
    simp only [horizon, View.heardOf, latest, hcontact, hseen, hboot, List.foldl_cons, List.foldl_nil]
    omega
  leases r hr := by
    rw [hreserved] at hr
    exact absurd hr List.not_mem_nil

theorem tidy_new (hgrace : 0 ≤ cfg.unreachableGrace) (hnew : HostNew cfg w.clock op h)
    (hdrop : ∀ old, w.pool.hosts.get h.id = some old → HostDrop op old) (horderly : Orderly L cfg w) (hfit : Fit L cfg w op)
    (hhosts : ∀ started listed, op = .applyHosts started listed → HostsFit L cfg w started listed) : Tidy L cfg w h.id h.view := by
  cases hnew with
  | found hmem hvalid =>
    rename_i started listed host
    have hid := found_id cfg w.clock host
    have hnone : w.pool.hosts.get host.id = none := by
      cases hget : w.pool.hosts.get host.id with
      | none => rfl
      | some old =>
        have hkeeps : keeps started listed old = true := by
          simp only [keeps, Bool.or_eq_true]
          refine Or.inl (Or.inl (List.any_eq_true.mpr ⟨host, hmem, ?_⟩))
          rw [hvalid, Table.key_of_get hget]
          simp
        cases hdrop old (hid ▸ hget) with
        | unlisted hdropped =>
          rw [hkeeps] at hdropped
          cases hdropped
    have hquiet := (hhosts _ _ rfl).found host hmem hnone
    rw [hid]
    have hview : (found cfg w.clock host).view.lastContact = 0 ∧ (found cfg w.clock host).view.firstSeen = w.clock ∧
        (found cfg w.clock host).view.bootSince = 0 ∧ (found cfg w.clock host).view.reserved = .empty ∧
        ((found cfg w.clock host).view.phase = .booting ∨ (found cfg w.clock host).view.phase = .stopped) := by
      unfold found
      split
      · exact ⟨rfl, rfl, rfl, rfl, Or.inr rfl⟩
      · exact ⟨rfl, rfl, rfl, rfl, Or.inl rfl⟩
    obtain ⟨hcontact, hseen, hboot, hreserved, hphase⟩ := hview
    refine tidy_entered hgrace horderly.toSourced ?_ hreserved (fun hshelter => hquiet ?_) hcontact hseen hboot
    · rcases hphase with hphase | hphase <;> rw [hphase] <;> simp
    · rcases hshelter with hown | hstopped | hstarting
      · exact Or.inl hown
      · exact Or.inr hstopped
      · rw [hstarting] at hphase
        rcases hphase with hphase | hphase <;> cases hphase
  | creating seq =>
    refine tidy_entered hgrace horderly.toSourced (by simp [HostState.view, creatingHost]) rfl (fun hshelter => ?_) rfl rfl rfl
    rcases hshelter with h | h | h <;> cases h
  | created hvalid =>
    rename_i host
    refine tidy_entered hgrace horderly.toSourced (by simp [HostState.view, createdHost]) rfl (fun _ => ?_) rfl rfl rfl
    exact quiet_of_calm hdrop horderly hfit hhosts (hfit.2.2 host rfl).2

/-! ### A host that stays -/

theorem Tidy.alter {v v' : View} (h : Tidy L cfg w id v) (hready : v'.phase = .ready → v'.everReady = true)
    (hunready : v'.everReady = false → v'.reserved = .empty) (hown : v'.ownBoot = true → v'.everReady = false → Quiet L w id)
    (hdown : v'.phase = .stopped ∨ v'.phase = .starting → Quiet L w id ∧ v'.reserved = .empty)
    (hheard : L.timed → v.heardOf ≤ v'.heardOf ∧ v'.heardOf ≤ max 0 w.clock)
    (hreserved : ∀ r ∈ v'.reserved.rows, r ∈ v.reserved.rows) : Tidy L cfg w id v' where
  ready := hready
  unready := hunready
  own := hown
  down := hdown
  heard htimed := (hheard htimed).2
  containers htimed m hm c hc hlive := le_trans (h.containers htimed m hm c hc hlive) (horizon_le (hheard htimed).1)
  leases r hr := by
    obtain ⟨lease, hlease, hid, hdeadline⟩ := h.leases r (hreserved r hr)
    exact ⟨lease, hlease, hid, fun htimed => le_trans (hdeadline htimed) (horizon_le (hheard htimed).1)⟩

theorem heardOf_contact {v : View} {t : Int} (h : v.heardOf ≤ max 0 t) :
    v.heardOf ≤ ({ v with lastContact := t } : View).heardOf ∧ ({ v with lastContact := t } : View).heardOf ≤ max 0 t := by
  simp only [View.heardOf, latest, List.foldl_cons, List.foldl_nil] at h ⊢
  omega

theorem heardOf_boot {v : View} {t : Int} (h : v.heardOf ≤ max 0 t) :
    v.heardOf ≤ ({ v with lastContact := 0, bootSince := t } : View).heardOf ∧
      ({ v with lastContact := 0, bootSince := t } : View).heardOf ≤ max 0 t := by
  simp only [View.heardOf, latest, List.foldl_cons, List.foldl_nil] at h ⊢
  omega

theorem takesLeases_spec {now : Int} (htakes : takesLeases cfg h now = true) :
    h.phase = .ready ∧ now - h.lastContact ≤ cfg.unreachableGrace := by
  simp only [takesLeases, Bool.and_eq_true, decide_eq_true_eq] at htakes
  exact ⟨htakes.1.1.1, htakes.2⟩

theorem mem_of_mem_erase {t : Table (Prod.fst : Int × String → Int)} {slot : Int} {r : Int × String} (hr : r ∈ (t.erase slot).rows) :
    r ∈ t.rows := (Table.mem_erase.mp hr).1

theorem erase_empty {t : Table (Prod.fst : Int × String → Int)} (slot : Int) (h : t = .empty) : t.erase slot = .empty := by
  rw [h]
  rfl

theorem relisted_stopped {started now : Int} {host : Host} (hstopper : cfg.stopper = true)
    (hstate : host.state = hostStopped) (hphase : h.phase = .booting ∨ h.phase = .ready ∨ h.phase = .draining)
    (hchanged : ¬started < h.changedAt) : (relisted cfg started now host h).phase = .stopped := by
  have hup : (decide (h.phase = .booting) || decide (h.phase = .ready) || decide (h.phase = .draining)) = true := by
    simp only [Bool.or_eq_true, decide_eq_true_eq]
    exact or_assoc.mpr hphase
  simp [relisted, reconcile, hstopper, hstate, hchanged, hup, markStopped]

section

variable {h h' : HostState} (hmove : HostMove cfg w.clock op h h') (horderly : Orderly L cfg w)
  (hget : w.pool.hosts.get h.id = some h) (hfit : Fit L cfg w op)
  (hhosts : ∀ started listed, op = .applyHosts started listed → HostsFit L cfg w started listed)

include hmove horderly hget hfit hhosts

theorem named_move : Named cfg w h.id h'.view := by
  have hnamed := horderly.named h.id h hget
  have hempty : h.view.phase = .creating → h.view.reserved = .empty := fun hphase => (hnamed.creating hphase).2.1
  -- a host that is gone was not a placeholder either
  have hexists : Gone w h.id → h.view.phase ≠ .creating := by
    intro hgone hcreating
    obtain ⟨hid, -, hcreate⟩ := hnamed.creating hcreating
    rw [horderly.names hcreate h.id hgone.2] at hid
    cases hid
  have hup : ∀ {v : View}, h.view.phase ≠ .creating → v.phase ≠ .creating → v.name = h.view.name ∨ v.name = h.id → Named cfg w h.id v := by
    intro v hphase hphase' hname
    refine ⟨fun _ => ⟨?_, (hnamed.known hphase).2⟩, fun h => absurd h hphase'⟩
    rcases hname with hname | hname
    · exact hname.trans (hnamed.known hphase).1
    · exact hname
  have hsame : ∀ {v : View}, v.phase = h.view.phase → v.name = h.view.name ∨ v.name = h.id →
      (h.view.phase = .creating → v.reserved = .empty) → Named cfg w h.id v := by
    intro v hphase hname hreserved
    by_cases hcreating : h.view.phase = .creating
    · refine ⟨fun hne => absurd (hphase.trans hcreating) hne, fun _ => ?_⟩
      exact ⟨(hnamed.creating hcreating).1, hreserved hcreating, (hnamed.creating hcreating).2.2⟩
    · exact hup hcreating (hphase ▸ hcreating) hname
  have hphase_ne : ∀ {phase : Phase}, h.phase = phase → phase ≠ .creating → h.view.phase ≠ .creating := fun heq hne => by
    show h.phase ≠ .creating
    rw [heq]
    exact hne
  cases hmove with
  | calm hview =>
    rw [hview]
    exact hnamed
  | heard hview =>
    rw [hview]
    exact hsame rfl (Or.inl rfl) hempty
  | relisted _ hid hview =>
    rw [hview]
    exact hsame rfl (Or.inr hid) hempty
  | halted hmem hid _ _ hphase _ hview =>
    rw [hview]
    refine hup ?_ (by simp) (Or.inr hid)
    rcases hphase with hphase | hphase | hphase <;> exact hphase_ne hphase (by simp)
  | revived _ hid hphase hview =>
    rw [hview]
    exact hup (hphase_ne hphase (by simp)) (by simp) (Or.inr hid)
  | readied hphase hview | failed hphase hview | drained hphase hview | discarded hphase hview | starting hphase hview =>
    rw [hview]
    exact hup (hphase_ne hphase (by simp)) (by simp) (Or.inl rfl)
  | held htakes hfree hview =>
    rw [hview]
    have hphase := (takesLeases_spec htakes).1
    exact hup (hphase_ne hphase (by simp)) (hphase_ne hphase (by simp)) (Or.inl rfl)
  | released _ hview =>
    rw [hview]
    exact hsame rfl (Or.inl rfl) fun heq => erase_empty _ (hempty heq)
  | committed hview =>
    rw [hview]
    exact hsame rfl (Or.inl rfl) fun heq => erase_empty _ (hempty heq)
  | leaving hreason hview =>
    rw [hview]
    exact hup (phase_of_returnReason hreason).2 (by dsimp only; split <;> simp) (Or.inl rfl)
  | restored hphase hview =>
    rw [hview]
    obtain ⟨c, sure, -, rfl, hsane, -⟩ := hfit
    refine hup ?_ hsane.exists_ (Or.inl rfl)
    rcases hphase with hphase | hphase <;> exact hphase_ne hphase (by simp)
  | stopped hview =>
    rw [hview]
    refine hup ?_ (by simp) (Or.inl rfl)
    obtain ⟨c, hid, -, -, hgone | ⟨old, hold, hclaim⟩⟩ := hfit
    · exact hexists (hid ▸ hgone)
    · rw [hid, hget, Option.some.injEq] at hold
      subst hold
      rcases hclaim.phase with hphase | hphase <;> exact hphase_ne hphase (by simp)
  | startFailed hview | started hview =>
    rw [hview]
    refine hup ?_ (by simp) (Or.inl rfl)
    rcases hfit with hgone | ⟨old, hold, hphase⟩
    · exact hexists hgone
    · rw [hget, Option.some.injEq] at hold
      subst hold
      exact hphase_ne hphase (by simp)
  | adopted hid hview =>
    rw [hview]
    exact hsame rfl (Or.inr hid) hempty

theorem tidy_move (htidy : Tidy L cfg w h.id h.view) : Gone w h.id ∨ Tidy L cfg w h.id h'.view := by
  have hcontact := fun htimed => heardOf_contact (htidy.heard htimed)
  have hsame := fun htimed => And.intro (le_refl h.view.heardOf) (htidy.heard htimed)
  cases hmove with
  | calm hview =>
    rw [hview]
    exact Or.inr htidy
  | heard hview =>
    rw [hview]
    exact Or.inr (htidy.alter htidy.ready htidy.unready htidy.own htidy.down hcontact fun _ => id)
  | relisted _ hid hview =>
    rw [hview]
    exact Or.inr (htidy.alter htidy.ready htidy.unready htidy.own htidy.down hsame fun _ => id)
  | halted hmem hid hstopper hstate hphase hchanged hview =>
    rw [hview]
    have hne : h.phase ≠ .stopped := by
      rcases hphase with hphase | hphase | hphase <;> rw [hphase] <;> simp
    have hquiet := (hhosts _ _ rfl).stopped _ hmem h (hid ▸ hget) hne (relisted_stopped hstopper hstate hphase hchanged)
    rw [hid] at hquiet
    exact Or.inr (htidy.alter (fun heq => by cases heq) htidy.unready htidy.own (fun _ => hquiet) hsame fun _ => id)
  | revived _ hid hphase hview =>
    rw [hview]
    have hdown := htidy.down (Or.inl hphase)
    exact Or.inr (htidy.alter (fun heq => by cases heq) (fun _ => hdown.2) (fun heq => by cases heq) (fun heq => by rcases heq with heq | heq <;> cases heq)
      (fun htimed => heardOf_boot (htidy.heard htimed)) fun _ => id)
  | readied hphase hview =>
    rw [hview]
    exact Or.inr (htidy.alter (fun _ => rfl) (fun heq => by cases heq) (fun _ heq => by cases heq) (fun heq => by rcases heq with heq | heq <;> cases heq)
      hcontact fun _ => id)
  | failed hphase hview =>
    rw [hview]
    exact Or.inr (htidy.alter (fun heq => by cases heq) htidy.unready htidy.own (fun heq => by rcases heq with heq | heq <;> cases heq) hcontact fun _ => id)
  | drained hphase hview =>
    rw [hview]
    exact Or.inr (htidy.alter (fun heq => by cases heq) htidy.unready htidy.own (fun heq => by rcases heq with heq | heq <;> cases heq) hsame fun _ => id)
  | held htakes hfree hview =>
    rename_i leaseID slot
    rw [hview]
    obtain ⟨hphase, hrecent⟩ := takesLeases_spec htakes
    have hever : h.view.everReady = true := htidy.ready hphase
    obtain ⟨lease, hlease, hid⟩ := hfit
    refine Or.inr
      { ready := htidy.ready
        unready := fun heq => absurd heq (by simp [hever])
        own := htidy.own
        down := fun heq => absurd heq (by simp [show h.view.phase = .ready from hphase])
        heard := htidy.heard
        containers := htidy.containers
        leases := fun r hr => ?_ }
    rcases Table.mem_put.mp hr with rfl | ⟨hr, -⟩
    · refine ⟨lease, hlease, hid, fun htimed => ?_⟩
      have hdeadline := horderly.leases htimed lease hlease
      have hheard : h.lastContact ≤ h.view.heardOf := by
        simp only [View.heardOf, latest, List.foldl_cons, List.foldl_nil, HostState.view]
        omega
      show lease.deadline ≤ h.view.heardOf + cfg.maxLifetime + cfg.unreachableGrace
      omega
    · exact htidy.leases r hr
  | released _ hview =>
    rw [hview]
    exact Or.inr (htidy.alter htidy.ready (fun heq => erase_empty _ (htidy.unready heq)) htidy.own
      (fun hphase => ⟨(htidy.down hphase).1, erase_empty _ (htidy.down hphase).2⟩) hsame fun _ => mem_of_mem_erase)
  | committed hview =>
    rw [hview]
    exact Or.inr (htidy.alter htidy.ready (fun heq => erase_empty _ (htidy.unready heq)) htidy.own
      (fun hphase => ⟨(htidy.down hphase).1, erase_empty _ (htidy.down hphase).2⟩) hcontact fun _ => mem_of_mem_erase)
  | leaving hreason hview =>
    rename_i stop
    rw [hview]
    cases stop with
    | _ => exact Or.inr (htidy.alter (fun heq => by cases heq) htidy.unready htidy.own (fun heq => by rcases heq with heq | heq <;> cases heq) hsame fun _ => id)
  | discarded hphase hview =>
    rw [hview]
    exact Or.inr (htidy.alter (fun heq => by cases heq) htidy.unready htidy.own (fun heq => by rcases heq with heq | heq <;> cases heq) hsame fun _ => id)
  | restored hphase hview =>
    rw [hview]
    obtain ⟨c, sure, hid, rfl, hsane, hgone | ⟨old, hold, hclaim⟩⟩ := hfit
    · exact Or.inl (hid ▸ hgone)
    · rw [hid, hget, Option.some.injEq] at hold
      subst hold
      refine Or.inr (htidy.alter hclaim.ready htidy.unready htidy.own (fun heq => ?_) hsame fun _ => id)
      rcases heq with heq | heq
      · exact ⟨hid ▸ hclaim.down heq, hclaim.empty fun hsilent => hsilent.1 heq⟩
      · exact absurd heq hsane.settled
  | stopped hview =>
    rw [hview]
    obtain ⟨c, hid, hstop, hsane, hgone | ⟨old, hold, hclaim⟩⟩ := hfit
    · exact Or.inl (hid ▸ hgone)
    · rw [hid, hget, Option.some.injEq] at hold
      subst hold
      have hspent := hclaim.sure rfl fun hsilent => absurd hsilent (hsane.stop hstop)
      exact Or.inr (htidy.alter (fun heq => by cases heq) htidy.unready htidy.own
        (fun _ => ⟨hid ▸ hspent.1, hclaim.empty (hsane.stop hstop)⟩) hsame fun _ => id)
  | starting hphase hview =>
    rw [hview]
    exact Or.inr (htidy.alter (fun heq => by cases heq) htidy.unready htidy.own (fun _ => htidy.down (Or.inl hphase)) hsame fun _ => id)
  | startFailed hview =>
    rw [hview]
    rcases hfit with hgone | ⟨old, hold, hphase⟩
    · exact Or.inl hgone
    · rw [hget, Option.some.injEq] at hold
      subst hold
      exact Or.inr (htidy.alter (fun heq => by cases heq) htidy.unready htidy.own (fun _ => htidy.down (Or.inr hphase)) hsame fun _ => id)
  | started hview =>
    rw [hview]
    rcases hfit with hgone | ⟨old, hold, hphase⟩
    · exact Or.inl hgone
    · rw [hget, Option.some.injEq] at hold
      subst hold
      have hdown := htidy.down (Or.inr hphase)
      exact Or.inr (htidy.alter (fun heq => by cases heq) (fun _ => hdown.2) (fun _ _ => hdown.1) (fun heq => by rcases heq with heq | heq <;> cases heq)
        (fun htimed => heardOf_boot (htidy.heard htimed)) fun _ => id)
  | adopted hid hview =>
    rw [hview]
    rename_i host
    refine Or.inr (htidy.alter htidy.ready htidy.unready (fun _ hready => ?_) htidy.down hsame fun _ => id)
    rcases (hfit.2.2 host rfl).2 with hquiet | ⟨old, hold, hever⟩
    · exact hid ▸ hquiet
    · rw [hid, hget, Option.some.injEq] at hold
      subst hold
      rw [hever] at hready
      cases hready

end

/-! ### Sections -/

section

variable (horderly : Orderly L cfg w) (hfit : Fit L cfg w op)
  (hhosts : ∀ started listed, op = .applyHosts started listed → HostsFit L cfg w started listed)

include horderly hfit hhosts

theorem entry_cases {h : HostState} (hget : w.pool.hosts.get id = some h) :
    (∃ h', (effect cfg w.clock op w.pool).hosts.get id = some h' ∧ HostMove cfg w.clock op h h') ∨
      Gone w id ∨ h.view.phase = .creating ∧ w.machines.get id = none := by
  have hkey : h.id = id := Table.key_of_get hget
  subst hkey
  have hentry := effect_entry cfg w.clock op w.pool (fun started listed hop => (hhosts started listed hop).nodup) h.id
  rw [hget] at hentry
  generalize hnew : (effect cfg w.clock op w.pool).hosts.get h.id = entry at hentry
  cases hentry with
  | moved hmove => exact Or.inl ⟨_, rfl, hmove⟩
  | dropped hdrop => exact Or.inr (gone_of_drop hdrop horderly hget hfit hhosts)
  | renewed hdrop => exact Or.inr (gone_of_drop hdrop horderly hget hfit hhosts)

theorem orderly_locked (hgrace : 0 ≤ cfg.unreachableGrace) (commits : List (String × Int × String)) :
    Orderly L cfg { w with pool := effect cfg w.clock op w.pool, commits } := by
  have hlast : ∀ id h, (effect cfg w.clock op w.pool).hosts.get id = some h →
      Named cfg w id h.view ∧ (Gone w id ∨ Tidy L cfg w id h.view) := by
    intro id h hget
    have hentry := effect_entry cfg w.clock op w.pool (fun started listed hop => (hhosts started listed hop).nodup) id
    rw [hget] at hentry
    have hkey : h.id = id := Table.key_of_get hget
    generalize hold : w.pool.hosts.get id = old at hentry
    cases hentry with
    | moved hmove =>
      rename_i old
      have hkey' : old.id = id := Table.key_of_get hold
      subst hkey'
      refine ⟨named_move hmove horderly hold hfit hhosts, ?_⟩
      rcases horderly.tidy old.id old hold with hgone | htidy
      · exact Or.inl hgone
      · exact tidy_move hmove horderly hold hfit hhosts htidy
    | entered hnew =>
      rw [← hkey] at hold ⊢
      refine ⟨named_new hnew hfit hhosts, Or.inr (tidy_new hgrace hnew (fun old hsome => ?_) horderly hfit hhosts)⟩
      rw [hold] at hsome
      cases hsome
    | renewed hdrop hnew =>
      rw [← hkey] at hold ⊢
      refine ⟨named_new hnew hfit hhosts, Or.inr (tidy_new hgrace hnew (fun old hsome => ?_) horderly hfit hhosts)⟩
      rw [hold, Option.some.injEq] at hsome
      exact hsome ▸ hdrop
  exact
    { machines := horderly.machines
      names := horderly.names
      leaseIDs := horderly.leaseIDs
      leases := horderly.leases
      containers := horderly.containers
      named := fun id h hget => ⟨(hlast id h hget).1.known, (hlast id h hget).1.creating⟩
      tidy := fun id h hget => (hlast id h hget).2.imp_right fun htidy =>
        ⟨htidy.ready, htidy.unready, htidy.own, htidy.down, htidy.heard, htidy.containers, htidy.leases⟩ }

variable (commits : List (String × Int × String))

theorem held_locked {slot : Int} {leaseID : String} (hheld : Held w id slot leaseID) (hfrees : op.frees ≠ some (id, slot)) :
    Held { w with pool := effect cfg w.clock op w.pool, commits } id slot leaseID := by
  rcases hheld with hgone | ⟨h, hget, hslot⟩
  · exact Or.inl hgone
  have hkey : h.id = id := Table.key_of_get hget
  have hreserved : h.view.reserved ≠ .empty := by
    intro hempty
    rw [hempty] at hslot
    cases hslot
  rcases entry_cases horderly hfit hhosts hget with ⟨h', hget', hmove⟩ | hgone | ⟨hcreating, -⟩
  · refine Or.inr ⟨h', hget', ?_⟩
    cases hmove with
    | held htakes hfree hview =>
      rename_i slot'
      rw [hview]
      have hne : slot ≠ slot' := by
        rintro rfl
        simp only [HostState.isFree, Bool.and_eq_true, Option.isNone_iff_eq_none] at hfree
        rw [show h.reserved = h.view.reserved from rfl, hslot] at hfree
        cases hfree.2
      exact (Table.get_put_of_ne hne).trans hslot
    | released hop hview =>
      rename_i slot'
      rw [hview]
      have hne : slot ≠ slot' := by
        rintro rfl
        rcases hop with rfl | ⟨lease, rfl⟩
        · exact hfrees (by rw [hkey]; rfl)
        · exact hfrees (by rw [hkey]; rfl)
      exact (Table.get_erase_of_ne hne).trans hslot
    | committed hview =>
      rename_i slot' _ _
      rw [hview]
      have hne : slot ≠ slot' := by
        rintro rfl
        exact hfrees (by rw [hkey]; rfl)
      exact (Table.get_erase_of_ne hne).trans hslot
    | calm hview | heard hview | relisted _ _ hview | halted _ _ _ _ _ _ hview | revived _ _ _ hview | readied _ hview | failed _ hview
    | drained _ hview | leaving _ hview | discarded _ hview | restored _ hview | stopped hview | starting _ hview | startFailed hview
    | started hview | adopted _ hview =>
      rw [hview]
      exact hslot
  · exact Or.inl hgone
  · exact absurd ((horderly.named id h hget).creating hcreating).2.1 hreserved

theorem claimed_locked {c : Candidate} {sure : Bool} (hclaimed : Claimed L w sure c) (hreturns : op.returns ≠ some c.host.id) :
    Claimed L { w with pool := effect cfg w.clock op w.pool, commits } sure c := by
  refine ⟨hclaimed.1, ?_⟩
  rcases hclaimed.2 with hgone | ⟨h, hget, hclaim⟩
  · exact Or.inl hgone
  have hkey : h.id = c.host.id := Table.key_of_get hget
  have hleaving : h.phase = .deleting ∨ h.phase = .stopping := hclaim.phase
  -- moves that a host which is being returned cannot make
  have hnot : ∀ {phase : Phase}, h.phase = phase → phase ≠ .deleting → phase ≠ .stopping → False := by
    rintro phase rfl hdeleting hstopping
    exact hleaving.elim hdeleting hstopping
  rcases entry_cases horderly hfit hhosts hget with ⟨h', hget', hmove⟩ | hgone | ⟨hcreating, -⟩
  · have hkeep : ∀ {v : View}, v.phase = h.view.phase → v.everReady = h.view.everReady →
        (∀ r ∈ v.reserved.rows, r ∈ h.view.reserved.rows) → (h.view.reserved = .empty → v.reserved = .empty) →
        Claim L { w with pool := effect cfg w.clock op w.pool, commits } c sure v := by
      intro v hphase hever hrows hempty
      exact
        { phase := hphase ▸ hclaim.phase
          ready := fun hready => hever.trans (hclaim.ready hready)
          empty := fun hsilent => hempty (hclaim.empty hsilent)
          down := hclaim.down
          sure := fun hsure htimed => ⟨(hclaim.sure hsure htimed).1, fun r hr => (hclaim.sure hsure htimed).2 r (hrows r hr)⟩ }
    have hsame : ∀ {v : View}, v.phase = h.view.phase → v.everReady = h.view.everReady → v.reserved = h.view.reserved →
        Claim L { w with pool := effect cfg w.clock op w.pool, commits } c sure v := fun hphase hever hreserved =>
      hkeep hphase hever (fun r hr => hreserved ▸ hr) fun hempty => hreserved.trans hempty
    suffices hclaim' : Gone w c.host.id ∨ Claim L { w with pool := effect cfg w.clock op w.pool, commits } c sure h'.view by
      exact hclaim'.imp_right fun hclaim' => ⟨h', hget', hclaim'⟩
    cases hmove with
    | calm hview | heard hview | relisted _ _ hview | adopted _ hview =>
      rw [hview]
      exact Or.inr (hsame rfl rfl rfl)
    | released _ hview | committed hview =>
      rw [hview]
      exact Or.inr (hkeep rfl rfl (fun _ => mem_of_mem_erase) (erase_empty _))
    | halted _ _ _ _ hphase =>
      rcases hphase with hphase | hphase | hphase <;> exact (hnot hphase (by simp) (by simp)).elim
    | revived _ _ hphase | readied hphase | failed hphase | drained hphase | discarded hphase | starting hphase =>
      exact (hnot hphase (by simp) (by simp)).elim
    | held htakes => exact (hnot (takesLeases_spec htakes).1 (by simp) (by simp)).elim
    | leaving hreason =>
      rcases up_of_returnReason hreason with hphase | hphase | hphase <;> exact (hnot hphase (by simp) (by simp)).elim
    | restored => exact absurd (by rw [hkey]; rfl) hreturns
    | stopped => exact absurd (by rw [hkey]; rfl) hreturns
    | startFailed | started =>
      rcases hfit with hgone | ⟨old, hold, hphase⟩
      · exact Or.inl (hkey ▸ hgone)
      · rw [hkey, hget, Option.some.injEq] at hold
        subst hold
        exact (hnot hphase (by simp) (by simp)).elim
  · exact Or.inl hgone
  · exact (hnot hcreating (by simp) (by simp)).elim

theorem calm_locked (hcalm : Calm L w id) : Calm L { w with pool := effect cfg w.clock op w.pool, commits } id := by
  rcases hcalm with hquiet | ⟨h, hget, hever⟩
  · exact Or.inl hquiet
  have hkey : h.id = id := Table.key_of_get hget
  rcases entry_cases horderly hfit hhosts hget with ⟨h', hget', hmove⟩ | hgone | ⟨-, hnone⟩
  · -- a host that was seen ready is only taken for unready once it is known to be down
    have hdown : h.view.phase = .stopped ∨ h.view.phase = .starting → Quiet L w id := by
      intro hphase
      rcases horderly.tidy id h hget with hgone | htidy
      · exact hgone.quiet
      · exact (htidy.down hphase).1
    cases hmove with
    | revived _ _ hphase => exact Or.inl (hdown (Or.inl hphase))
    | started =>
      rcases hfit with hgone | ⟨old, hold, hphase⟩
      · exact Or.inl (hkey ▸ hgone.quiet)
      · rw [hkey, hget, Option.some.injEq] at hold
        subst hold
        exact Or.inl (hdown (Or.inr hphase))
    | readied _ hview => exact Or.inr ⟨h', hget', by rw [hview]⟩
    | calm hview | heard hview | relisted _ _ hview | halted _ _ _ _ _ _ hview | failed _ hview | drained _ hview | held _ _ hview
    | released _ hview | committed hview | leaving _ hview | discarded _ hview | restored _ hview | stopped hview | starting _ hview
    | startFailed hview | adopted _ hview => exact Or.inr ⟨h', hget', by rw [hview]; exact hever⟩
  · exact Or.inl hgone.quiet
  · refine Or.inl fun m hm => ?_
    rw [show (w.machines.get id) = none from hnone] at hm
    cases hm

theorem starting_locked (hstarting : Starting w id) (hop : ∀ result, op ≠ .startFinished id result) :
    Starting { w with pool := effect cfg w.clock op w.pool, commits } id := by
  rcases hstarting with hgone | ⟨h, hget, hphase⟩
  · exact Or.inl hgone
  have hkey : h.id = id := Table.key_of_get hget
  have hnot : ∀ {phase : Phase}, h.phase = phase → phase ≠ .starting → False := by
    rintro _ rfl hne
    exact hne hphase
  rcases entry_cases horderly hfit hhosts hget with ⟨h', hget', hmove⟩ | hgone | ⟨hcreating, -⟩
  · cases hmove with
    | calm hview | heard hview | relisted _ _ hview | released _ hview | committed hview | adopted _ hview =>
      exact Or.inr ⟨h', hget', by rw [hview]; exact hphase⟩
    | halted _ _ _ _ hup => rcases hup with hup | hup | hup <;> exact (hnot hup (by simp)).elim
    | revived _ _ hold | readied hold | failed hold | drained hold | discarded hold | starting hold => exact (hnot hold (by simp)).elim
    | held htakes => exact (hnot (takesLeases_spec htakes).1 (by simp)).elim
    | leaving hreason => rcases up_of_returnReason hreason with hup | hup | hup <;> exact (hnot hup (by simp)).elim
    | restored hold => rcases hold with hold | hold <;> exact (hnot hold (by simp)).elim
    | stopped =>
      obtain ⟨c, hid, -, -, hgone | ⟨old, hold, hclaim⟩⟩ := hfit
      · exact Or.inl (hkey ▸ hid ▸ hgone)
      · rw [hid, hkey, hget, Option.some.injEq] at hold
        subst hold
        rcases hclaim.phase with hleaving | hleaving <;> exact (hnot hleaving (by simp)).elim
    | startFailed => exact absurd (by rw [hkey]) (hop _)
    | started => exact absurd (by rw [hkey]) (hop _)
  · exact Or.inl hgone
  · exact (hnot hcreating (by simp)).elim

end

/-! ### A container is started -/

/-- The world in which the machine also runs `c`. -/
def World.running (w : World) (m : Machine) (c : Container) : World :=
  { w with machines := w.machines.put { m with containers := m.containers.put c } }

theorem get_running (w : World) (m : Machine) (c : Container) (id : String) : (w.running m c).machines.get id =
    if id = m.host.id then some { m with containers := m.containers.put c } else w.machines.get id := Table.get_put ..

section

variable {m : Machine} {c : Container} (hget : w.machines.get m.host.id = some m)

include hget

theorem gone_running (hgone : Gone w id) : Gone (w.running m c) id := by
  refine ⟨?_, hgone.2⟩
  rw [get_running, if_neg]
  · exact hgone.1
  · rintro rfl
    rw [hgone.1] at hget
    cases hget

theorem quiet_running (hquiet : Quiet L w id) (hc : id = m.host.id → L.live w.clock m.up c = false) : Quiet L (w.running m c) id := by
  intro m' hm' c' hc'
  rw [get_running] at hm'
  split at hm'
  · rename_i hid
    rw [Option.mem_some_iff] at hm'
    subst hm'
    rcases Table.mem_put.mp hc' with rfl | ⟨hold, -⟩
    · exact hc hid
    · exact hquiet m (hid ▸ hget) c' hold
  · exact hquiet m' hm' c' hc'

theorem held_running {slot : Int} {leaseID : String} (hheld : Held w id slot leaseID) : Held (w.running m c) id slot leaseID :=
  hheld.imp_left (gone_running hget)

theorem starting_running (hstarting : Starting w id) : Starting (w.running m c) id := hstarting.imp_left (gone_running hget)

variable {slot : Int} {lease : Lease} (horderly : Orderly L cfg w) (hheld : Held w m.host.id slot lease.id)
  (hlease : lease ∈ w.leases) (hdeadline : lease.deadline = c.deadline)

include hheld

theorem entry_running : ∃ h, w.pool.hosts.get m.host.id = some h ∧ (slot, lease.id) ∈ h.view.reserved.rows := by
  rcases hheld with hgone | ⟨h, hentry, hslot⟩
  · rw [hgone.1] at hget
    cases hget
  · exact ⟨h, hentry, Table.mem_of_get hslot⟩

include horderly hlease hdeadline

theorem tidy_running {h : HostState} (hentry : w.pool.hosts.get id = some h) (htidy : Tidy L cfg w id h.view) :
    Tidy L cfg (w.running m c) id h.view := by
  obtain ⟨old, hold, hrow⟩ := entry_running hget hheld
  -- a host with a reservation is not one that must be quiet
  have hother : Quiet L w id ∧ h.view.reserved = .empty → Quiet L (w.running m c) id ∧ h.view.reserved = .empty := by
    rintro ⟨hquiet, hempty⟩
    refine ⟨quiet_running hget hquiet fun hid => ?_, hempty⟩
    rw [hid, hold, Option.some.injEq] at hentry
    rw [hentry, hempty] at hrow
    exact absurd hrow List.not_mem_nil
  exact
    { ready := htidy.ready
      unready := htidy.unready
      own := fun hown hready => (hother ⟨htidy.own hown hready, htidy.unready hready⟩).1
      down := fun hphase => hother (htidy.down hphase)
      heard := htidy.heard
      containers := by
        intro htimed m' hm' c' hc' hlive
        rw [get_running] at hm'
        split at hm'
        · rename_i hid
          rw [Option.mem_some_iff] at hm'
          subst hm'
          rcases Table.mem_put.mp hc' with rfl | ⟨hmem, -⟩
          · rw [hid, hold, Option.some.injEq] at hentry
            subst hentry
            obtain ⟨lease', hlease', hid', hbound⟩ := htidy.leases _ hrow
            have hsame : lease' = lease := List.inj_on_of_nodup_map horderly.leaseIDs hlease' hlease hid'
            rw [← hdeadline, ← hsame]
            exact hbound htimed
          · exact htidy.containers htimed m (hid ▸ hget) c' hmem hlive
        · exact htidy.containers htimed m' hm' c' hc' hlive
      leases := htidy.leases }

theorem orderly_running : Orderly L cfg (w.running m c) where
  machines id m' hm' := by
    rw [get_running] at hm'
    split at hm'
    · rename_i hid
      exact hid ▸ horderly.machines _ m hget
    · exact horderly.machines id m' hm'
  names := horderly.names
  leaseIDs := horderly.leaseIDs
  leases := horderly.leases
  containers htimed id m' hm' c' hc' hlive := by
    rw [get_running] at hm'
    split at hm'
    · rename_i hid
      rw [Option.mem_some_iff] at hm'
      subst hm'
      rcases Table.mem_put.mp hc' with rfl | ⟨hmem, -⟩
      · rw [← hdeadline]
        exact horderly.leases htimed lease hlease
      · exact horderly.containers htimed _ m hget c' hmem hlive
    · exact horderly.containers htimed id m' hm' c' hc' hlive
  named id h hentry := ⟨(horderly.named id h hentry).known, (horderly.named id h hentry).creating⟩
  tidy id h hentry := (horderly.tidy id h hentry).imp (gone_running hget) (tidy_running hget horderly hheld hlease hdeadline hentry)

theorem claimed_running {candidate : Candidate} {sure : Bool} (hclaimed : Claimed L w sure candidate) :
    Claimed L (w.running m c) sure candidate := by
  refine ⟨hclaimed.1, hclaimed.2.imp (gone_running hget) ?_⟩
  rintro ⟨h, hentry, hclaim⟩
  obtain ⟨old, hold, hrow⟩ := entry_running hget hheld
  have hsilent : candidate.host.id = m.host.id → candidate.silent := by
    intro hid
    rw [hid, hold, Option.some.injEq] at hentry
    by_contra hsilent
    rw [hentry, hclaim.empty hsilent] at hrow
    exact absurd hrow List.not_mem_nil
  refine ⟨h, hentry, { hclaim with down := fun hstopped => ?_, sure := fun hsure htimed => ?_ }⟩
  · exact quiet_running hget (hclaim.down hstopped) fun hid => absurd hstopped (hsilent hid).1
  · obtain ⟨hquiet, hdead⟩ := hclaim.sure hsure htimed
    refine ⟨quiet_running hget hquiet fun hid => ?_, hdead⟩
    -- the lease of the reservation has run out, and so has the container
    rw [hid, hold, Option.some.injEq] at hentry
    subst hentry
    obtain ⟨htimed', lease', hlease', hid', hpassed⟩ := hdead _ hrow
    have hsame : lease' = lease := List.inj_on_of_nodup_map horderly.leaseIDs hlease' hlease hid'
    by_contra hlive
    have hlate := L.deadline htimed' (by simpa using hlive : L.live w.clock m.up c = true)
    rw [hsame, hdeadline] at hpassed
    omega

omit hlease hdeadline in
theorem calm_running (hcalm : Calm L w id) : Calm L (w.running m c) id := by
  rcases hcalm with hquiet | hever
  · by_cases hid : id = m.host.id
    · obtain ⟨old, hold, hrow⟩ := entry_running hget hheld
      rcases horderly.tidy _ old hold with hgone | htidy
      · rw [hgone.1] at hget
        cases hget
      · refine Or.inr ⟨old, hid ▸ hold, ?_⟩
        by_contra hready
        rw [htidy.unready (by simpa using hready)] at hrow
        exact absurd hrow List.not_mem_nil
    · exact Or.inl (quiet_running hget hquiet fun h => absurd h hid)
  · exact Or.inr hever

end

/-! ### Every call -/

section

variable (L : Liveness) (cfg : Config)

/-- An agent's listing names the containers of the machine, in any order. Their state may have changed meanwhile. -/
def Accurate (w : World) (host : Host) (slots : List Slot) : Prop :=
  ∀ m ∈ w.machines.get host.id, (slots.map Slot.identity).Perm (m.containers.rows.map fun c => c.slot.identity)

/-- What the environment may answer, and the host listings the pool may act on. -/
def Allowed (w : World) : Call → Choice → Prop
  | .applyHosts started listed, _ => HostsFit L cfg w started listed
  | .createHost _, choice => ∀ host ∈ choice.makes, isPlaceholder host.id = false
  | .agentList host, .slots (.ok slots) => Accurate w host slots
  | _, _ => True

structure Undisturbed (op : Call) (w w' : World) : Prop where
  leases : ∀ lease ∈ w.leases, lease ∈ w'.leases
  used : ∀ id ∈ w.used, id ∈ w'.used
  gone : ∀ id, Gone w id → Gone w' id
  held : ∀ id slot leaseID, op.frees ≠ some (id, slot) → Held w id slot leaseID → Held w' id slot leaseID
  claimed : ∀ c sure, op.returns ≠ some c.host.id → Claimed L w sure c → Claimed L w' sure c
  calm : ∀ id, Calm L w id → Calm L w' id
  starting : ∀ id, (∀ result, op ≠ .startFinished id result) → Starting w id → Starting w' id

end

theorem Eased.undisturbed {w' : World} (h : Eased L w w') : Undisturbed L op w w' where
  leases := h.leases
  used := h.used
  gone _ := h.isGone
  held _ _ _ _ := h.held
  claimed _ _ _ := h.claimed
  calm _ := h.calm
  starting _ _ := h.starting

theorem exec_kept {choice : Choice} {w' : World} {answer : op.Ans} (hgrace : 0 ≤ cfg.unreachableGrace) (horderly : Orderly L cfg w)
    (hfit : Fit L cfg w op) (hallowed : Allowed L cfg w op choice) (hexec : World.exec cfg op choice w = some (answer, w')) :
    Orderly L cfg w' ∧ Undisturbed L op w w' := by
  have heased : ∀ {w'}, Eased L w w' → Sourced L cfg w' → Orderly L cfg w' ∧ Undisturbed L op w w' := fun h hsourced =>
    ⟨h.orderly horderly hsourced, h.undisturbed⟩
  cases exec_executed hexec with
  | locked _ _ commits =>
    have hhosts : ∀ started listed, op = .applyHosts started listed → HostsFit L cfg w started listed := by
      rintro started listed rfl
      exact hallowed
    exact ⟨orderly_locked horderly hfit hhosts hgrace commits,
      { leases := fun _ => id
        used := fun _ => id
        gone := fun _ => id
        held := fun id slot leaseID hfrees hheld => held_locked horderly hfit hhosts commits hheld hfrees
        claimed := fun c sure hreturns hclaimed => claimed_locked horderly hfit hhosts commits hclaimed hreturns
        calm := fun id hcalm => calm_locked horderly hfit hhosts commits hcalm
        starting := fun id hop hstarting => starting_locked horderly hfit hhosts commits hstarting hop }⟩
  | made hmakes hfresh =>
    rename_i host
    refine heased (eased_made hfresh) ((eased_made hfresh).sourced horderly.toSourced ?_ ?_ horderly.leaseIDs horderly.leases)
    · intro id m hm
      rw [Table.get_put] at hm
      split at hm
      · rename_i hid
        exact hid ▸ List.mem_cons_self
      · exact List.mem_cons_of_mem _ (horderly.machines id m hm)
    · intro hcreate id hused
      rcases List.mem_cons.mp hused with rfl | hused
      · exact hallowed host hmakes
      · exact horderly.names hcreate id hused
  | deleted id =>
    refine heased (eased_deleted id) ((eased_deleted id).sourced_same horderly.toSourced (fun k m hm => ?_) rfl rfl)
    rw [World.removeMachine, Table.get_erase] at hm
    split at hm
    · cases hm
    · exact ⟨m, hm⟩
  | changed hget hmove =>
    rename_i m m'
    have hmachines : ∀ id m₁, (w.machines.put m').get id = some m₁ → ∃ m₁, w.machines.get id = some m₁ := by
      intro id m₁ hm₁
      rw [Table.get_put] at hm₁
      split at hm₁
      · rename_i hid
        exact ⟨m, by rw [hid, hmove.host]; exact hget⟩
      · exact ⟨m₁, hm₁⟩
    by_cases hop : ∃ host slot request, op = .agentStart host slot request
    · obtain ⟨host, slot, request, rfl⟩ := hop
      cases hmove with
      | started hid =>
        obtain ⟨lease, hlease, hdeadline, hheld⟩ := hfit
        rw [hid] at hheld
        exact ⟨orderly_running hget horderly hheld hlease hdeadline,
          { leases := fun _ => id
            used := fun _ => id
            gone := fun _ => gone_running hget
            held := fun _ _ _ _ => held_running hget
            claimed := fun _ _ _ => claimed_running hget horderly hheld hlease hdeadline
            calm := fun _ => calm_running hget horderly hheld
            starting := fun _ _ => starting_running hget }⟩
    · have hmoved : Eased L w { w with machines := w.machines.put m' } :=
        eased_move hget hmove fun host slot request heq => hop ⟨host, slot, request, heq⟩
      exact heased hmoved (hmoved.sourced_same horderly.toSourced hmachines rfl rfl)

end Pool

end RunnerYard
