import RunnerYard.Pool.State

/-!
# What the pool does under its lock

Each critical section of `compute.go` as a function of the pool's state and the time it reads. A section that the source writes inside a longer method is named after what it does there: `applyHosts` is the second half of `refreshHosts`, `startFinished` what `start` does once the source has answered.
-/

namespace RunnerYard

namespace Pool

def firstNonEmpty (a b : String) : String := if a ≠ "" then a else b

def workerID (hostID : String) (slot : Int) (leaseID : String) : String := hostID ++ "/" ++ Text.itoa slot ++ "/" ++ leaseID

def parseWorkerID (id : String) : Option (String × Int × String) :=
  match Text.split '/' id with
  | [hostID, index, leaseID] =>
    if hostID = "" || leaseID = "" then none
    else match Text.atoi index with
      | some slot => if slot < 0 then none else some (hostID, slot, leaseID)
      | none => none
  | _ => none

/-- `slotWorker`. The lease is the zero one for a slot that was listed. -/
def slotWorker (hostID : String) (index : Int) (slot : Slot) (lease : Option Lease) : Worker where
  id := workerID hostID index (firstNonEmpty slot.leaseID (lease.elim "" (·.id)))
  leaseID := firstNonEmpty slot.leaseID (lease.elim "" (·.id))
  runnerName := firstNonEmpty slot.runnerName (lease.elim "" (·.runnerName))
  runnerID := if slot.runnerID = 0 then lease.elim 0 (·.runnerID) else slot.runnerID
  runnerScaleSetID := if slot.runnerScaleSetID = 0 then lease.elim 0 (·.runnerScaleSetID) else slot.runnerScaleSetID
  state := slot.state
  createdAt := slot.createdAt

variable (cfg : Config)

/-! ### Host listings -/

/-- Host IDs must not be empty or hold a separator of worker IDs. -/
def validID (id : String) : Bool := id ≠ "" && '/' ∉ id.toList && ':' ∉ id.toList

def found (now : Int) (host : Host) : HostState :=
  let h : HostState :=
    { id := host.id
      host
      phase := .booting
      firstSeen := now
      ownBoot := host.createdAt ≠ 0 && now - host.createdAt < cfg.bootTimeout }
  if cfg.stopper && host.state = hostStopped then { h with phase := .stopped, stoppedSince := earliest host.stateSince now }
  else { h with runningSince := firstNonZero [host.stateSince, host.createdAt, now] }

/-- `markStopped`: the slot containers died with the host. -/
def markStopped (at_ : Int) (h : HostState) : HostState :=
  { h with phase := .stopped, runningSince := 0, stoppedSince := at_, slots := .empty, lastListed := 0, emptySince := 0, startedByPool := false }

/-- `reconcile`: follow a stop or a start the pool did not make itself. -/
def reconcile (now : Int) (h : HostState) : HostState :=
  if !cfg.stopper then h
  else if h.host.state = hostStopped && (h.phase = .booting || h.phase = .ready || h.phase = .draining) then
    markStopped (earliest h.host.stateSince now)
      (if h.startedByPool then { h with startFailures := h.startFailures + 1, notBefore := now + hostRefusalBackoff } else h)
  else if h.host.state ≠ hostStopped && h.phase = .stopped then
    { h with
      phase := .booting
      bootSince := now
      ownBoot := false
      everReady := false
      lastContact := 0
      runningSince := firstNonZero [h.host.stateSince, now]
      stoppedSince := 0 }
  else h

/-- A known host as the listing has it. A listing that may predate the pool's own change does not override it. -/
def relisted (started now : Int) (host : Host) (h : HostState) : HostState :=
  let h := { h with host }
  if started < h.changedAt then h else reconcile cfg now h

def see (started now : Int) (p : Pool) (host : Host) : Pool :=
  if !validID host.id then p
  else if (p.hosts.get host.id).isSome then p.update host.id (relisted cfg started now host)
  else { p with hosts := p.hosts.put (found cfg now host) }

/-- A host that the listing does not name is gone, unless it is being created or was first seen while the listing was in flight. -/
def keeps (started : Int) (listed : List Host) (h : HostState) : Bool :=
  listed.any (fun host => validID host.id && host.id = h.id) || h.phase = .creating || started < h.firstSeen

def applyHosts (started now : Int) (listed : List Host) (p : Pool) : Pool :=
  let p := listed.foldl (see cfg started now) p
  { p with hosts := p.hosts.filter (keeps started listed), hostsListedAt := now, hostsKnown := true }

/-- `refreshHosts` lists again when this is false. -/
def fresh (now : Int) (p : Pool) : Bool := p.hostsKnown && now - p.hostsListedAt < cfg.hostListInterval

/-- Which hosts a pass asks. -/
inductive HostFilter where
  | inventory
  | probe
  | maintain
  deriving DecidableEq, Repr

def HostFilter.accepts : HostFilter → HostState → Bool
  | inventory, h => h.host.address ≠ "" && h.running && (h.everReady || !h.ownBoot)
  | probe, h => h.phase = .booting && h.host.address ≠ ""
  | maintain, h => h.host.address ≠ "" && (h.phase = .ready || h.phase = .draining)

def hostsIn (filter : HostFilter) (p : Pool) : List Host := (p.sorted.filter filter.accepts).map (·.host)

/-! ### What the agents answered -/

/-- What `probe` learns from the agent of a booting host. -/
def probed (p : Pool) (now : Int) (info : HostInfo) (h : HostState) : HostState :=
  if h.phase ≠ .booting then h
  else if !p.accepts cfg info.image then
    { h with lastContact := now, info, phase := .draining, drainReason := some .imageMismatch }
  else if info.ready && 0 < info.slots then
    { h with lastContact := now, info, phase := .ready, everReady := true, startedByPool := false, startFailures := 0 }
  else { h with lastContact := now, info }

def applyInfos (now : Int) (results : List (Host × Except Err HostInfo)) (p : Pool) : Pool :=
  results.foldl (fun q (host, result) =>
    match result with
    | .error _ => q
    | .ok info => q.update host.id (probed cfg p now info)) p

def relist (now : Int) (slots : List Slot) (h : HostState) : HostState :=
  let h := { h with slots := slots.foldl Table.put .empty, lastContact := now, lastListed := now }
  if h.vacant then if h.emptySince = 0 then { h with emptySince := now } else h
  else { h with emptySince := 0 }

def applySlots (now : Int) (results : List (Host × Except Err (List Slot))) (p : Pool) : Pool :=
  results.foldl (fun q (host, result) =>
    match result with
    | .error _ => q
    | .ok slots => q.update host.id (relist now slots)) p

/-- The workers `Inventory` returns. -/
def inventoryOf (now : Int) (p : Pool) : List Worker :=
  (p.sorted.filter fun h => h.lastListed ≠ 0 && ¬cfg.unreachableGrace < now - h.lastListed).flatMap fun h =>
    ((h.slots.rows.insertionSort fun a b => a.index ≤ b.index).filter fun slot =>
      slot.controllerID = cfg.controllerID && slot.leaseID ≠ "" && slot.runnerName ≠ "").map fun slot =>
        slotWorker h.id slot.index slot none

/-! ### Launches -/

/-- The host `reserve` picks: the busiest one with room, on the pool's image if there is one. -/
def pick (now : Int) (p : Pool) : Option HostState :=
  p.sorted.foldl (fun best h =>
    if !takesLeases cfg h now || h.freeCount = 0 then best
    else match best with
      | none => some h
      | some b =>
        let stale := p.stale cfg h.info.image
        let bestStale := p.stale cfg b.info.image
        if (bestStale && !stale) || (stale = bestStale && (h.freeCount < b.freeCount ||
            (h.freeCount = b.freeCount && h.host.createdAt < b.host.createdAt))) then some h
        else some b) none

/-- Give `slot` to a lease whose launch is under way. -/
def hold (slot : Int) (leaseID : String) (h : HostState) : HostState :=
  { h with reserved := h.reserved.put (slot, leaseID), emptySince := 0 }

def reserve (now : Int) (leaseID : String) (p : Pool) : Option (Host × Int × String) × Pool :=
  match p.pick cfg now with
  | none => (none, p)
  | some h =>
    let slot := h.freeSlot.getD 0
    (some (h.host, slot, h.info.image), p.update h.id (hold slot leaseID))

def release (hostID : String) (slot : Int) (p : Pool) : Pool :=
  p.update hostID fun h => { h with reserved := h.reserved.erase slot }

/-- The slot as `commit` records it. -/
def committedSlot (now slot : Int) (started : Slot) (lease : Lease) : Slot where
  index := slot
  controllerID := cfg.controllerID
  leaseID := lease.id
  runnerName := lease.runnerName
  runnerID := if started.runnerID = 0 then lease.runnerID else started.runnerID
  runnerScaleSetID := if started.runnerScaleSetID = 0 then lease.runnerScaleSetID else started.runnerScaleSetID
  state := if started.state = "" then "started" else started.state
  createdAt := if started.createdAt = 0 then now else started.createdAt

def commit (now : Int) (hostID : String) (slot : Int) (started : Slot) (lease : Lease) (p : Pool) : Worker × Pool :=
  let taken := committedSlot cfg now slot started lease
  let p := p.update hostID fun h =>
    { h with reserved := h.reserved.erase slot, slots := h.slots.put taken, lastContact := now, emptySince := 0 }
  (slotWorker hostID slot taken (some lease), { p with launched := p.launched + 1 })

/-- The slot as `holdSuspect` records it. -/
def suspectSlot (now slot : Int) (lease : Lease) : Slot where
  index := slot
  controllerID := cfg.controllerID
  leaseID := lease.id
  runnerName := lease.runnerName
  runnerID := lease.runnerID
  runnerScaleSetID := lease.runnerScaleSetID
  state := "starting"
  createdAt := now

def holdSuspect (now : Int) (hostID : String) (slot : Int) (lease : Lease) (p : Pool) : Pool :=
  p.update hostID fun h =>
    { h with
      reserved := h.reserved.erase slot
      slots := h.slots.put (suspectSlot cfg now slot lease)
      notBefore := now + hostRefusalBackoff }

def markForeign (hostID : String) (slot : Int) (p : Pool) : Pool :=
  p.update hostID fun h =>
    if (h.slots.get slot).isSome then h else { h with slots := h.slots.put { index := slot, state := "unknown" } }

def codeImageMismatch : String := "image_mismatch"

def refuseHost (now : Int) (hostID reason : String) (p : Pool) : Pool :=
  p.update hostID fun h =>
    if reason = codeImageMismatch && h.phase = .ready then
      { h with notBefore := now + hostRefusalBackoff, phase := .draining, drainReason := some .imageMismatch }
    else { h with notBefore := now + hostRefusalBackoff }

def cleared (now : Int) (hostID : String) (slot : Int) (leaseID : String) (p : Pool) : Pool :=
  p.update hostID fun h =>
    let h := match h.slots.get slot with
      | some current =>
        if current.leaseID = leaseID || current.leaseID = "" then { h with slots := h.slots.erase slot } else h
      | none => h
    if h.vacant && h.emptySince = 0 then { h with emptySince := now } else h

/-- `noteFull`: how soon the core should probe again, or zero. -/
def noteFull (now : Int) (p : Pool) : Int × Pool :=
  let p := { p with demand := p.demand + 1 }
  (if p.roomComing cfg now then cfg.tick else 0, p)

/-- `host`: the host under an ID, unless it is still being created. -/
def hostAt (id : String) (p : Pool) : Option Host :=
  match p.hosts.get id with
  | some h => if h.phase = .creating then none else some h.host
  | none => none

def stoppedHost (id : String) (p : Pool) : Bool := (p.hosts.get id).any (·.phase = .stopped)

/-! ### The followed image -/

/-- `followTag`, once the tag has been resolved or not. -/
def followed (now : Int) (resolved : Except Err String) (p : Pool) : Pool :=
  match cfg.follow, resolved with
  | some follower, .ok image =>
    if image = cfg.image || !follower.related image then { p with imageCheckAt := now + imageRetry }
    else if image = p.image then { p with imageCheckAt := now + cfg.imageRefresh }
    else { p with imageCheckAt := now + cfg.imageRefresh, image, imageResolved := true, imageFailed := false }
  | _, _ => { p with imageCheckAt := now + imageRetry }

/-- A host that makes `replaceStale` wait. -/
def delaysReplacement (h : HostState) : Bool :=
  match h.phase with
  | .creating | .starting | .stopping | .deleting => true
  | .booting => h.ownBoot && !h.everReady
  | .draining => h.drainReason = some .imageStale
  | _ => false

def busy (h : HostState) : Nat := h.occupied + h.reserved.size

/-- The ready host on an earlier image that `replaceStale` drains next. -/
def staleCandidate (p : Pool) : Option HostState :=
  p.sorted.foldl (fun best h =>
    if h.phase ≠ .ready || !p.stale cfg h.info.image then best
    else match best with
      | none => some h
      | some b => if busy h < busy b || (busy h = busy b && h.host.createdAt < b.host.createdAt) then some h else some b) none

def replaceStale (now : Int) (p : Pool) : Pool :=
  if cfg.follow.isNone || !p.imageResolved || now < p.replaceNotBefore || p.hosts.rows.any delaysReplacement then p
  else
    let current := p.hosts.rows.any fun h => h.phase = .ready && !p.stale cfg h.info.image
    match p.staleCandidate cfg with
    | none => p
    | some candidate =>
      if p.imageFailed && !current then p
      else { p.update candidate.id fun h => { h with phase := .draining, drainReason := some .imageStale } with
        replaceNotBefore := now + replaceInterval }

/-! ### Returning hosts -/

structure Candidate where
  host : Host
  previous : Phase
  reason : Reason
  stop : Bool
  deriving DecidableEq, Repr

def heardOf (h : HostState) : Int := latest [h.lastContact, h.firstSeen, h.bootSince]

/-- Why `returnCandidates` returns a host, and whether it only stops it. -/
def returnReason (p : Pool) (now : Int) (base : List HostState) (h : HostState) : Option (Reason × Bool) :=
  let bootStart := firstNonZero [h.bootSince, h.host.createdAt]
  if h.phase = .booting && h.ownBoot && !h.everReady && bootStart ≠ 0 && cfg.bootTimeout < now - bootStart then
    some (.bootTimeout, false)
  else if (h.phase = .ready || h.phase = .draining || h.phase = .booting) &&
      cfg.maxLifetime + cfg.unreachableGrace < now - heardOf h then
    some (.unreachable, false)
  else if h.phase ≠ .ready && h.phase ≠ .draining then none
  else if 0 < h.occupied || 0 < h.reserved.size || h.lastListed = 0 || 3 * cfg.tick < now - h.lastListed then none
  else if h.phase = .draining then h.drainReason.map fun why => (.image why, false)
  else if base.any (·.host.id = h.id) then none
  else match cfg.facts.billing with
    | .owned => none
    | .perStartedHour =>
      if remainingPaid (now - h.host.createdAt) ≤ cfg.hourMargin then some (.paidHourEnding, false) else none
    | .perSecond =>
      let idle := if cfg.stopper then cfg.idleStop else cfg.idleReturn
      if h.emptySince ≠ 0 && idle ≤ now - h.emptySince then
        if cfg.stopper && p.stale cfg h.info.image then some (.image .imageStale, false) else some (.idle, cfg.stopper)
      else none

/-- The order of `stoppedCandidates`: the most recently stopped first. -/
def laterStopFirst (a b : HostState) : Bool :=
  if a.stoppedSince ≠ b.stoppedSince then b.stoppedSince < a.stoppedSince else a.host.id ≤ b.host.id

/-- The stopped hosts to delete, with the reason. -/
def expired (p : Pool) (now : Int) : Int → List HostState → List (HostState × Reason)
  | _, [] => []
  | kept, h :: rest =>
    match p.unusable cfg h with
    | some reason => (h, reason) :: p.expired now kept rest
    | none =>
      if kept < cfg.keepStopped then p.expired now (kept + 1) rest
      else if cfg.deleteStoppedAfter ≤ now - h.stoppedSince then (h, .stoppedExpired) :: p.expired now kept rest
      else p.expired now kept rest

def stoppedCandidates (now : Int) (p : Pool) : List (HostState × Reason) :=
  p.expired cfg now 0 ((p.hosts.rows.filter (·.phase = .stopped)).insertionSort fun a b => laterStopFirst a b = true)

def each (f : HostState → HostState) (p : Pool) : Pool :=
  { p with hosts := p.hosts.map (fun h => (f h).withID h.id) fun _ => HostState.withID_id _ _ }

def leaving (stop : Bool) (h : HostState) : HostState := { h with phase := if stop then .stopping else .deleting }

/-- The first pass of `returnCandidates`, over the hosts that are up. -/
def returnIdle (now : Int) (p : Pool) : Pool :=
  let reason := p.returnReason cfg now (p.baseHosts cfg)
  let failed := p.hosts.rows.any fun h =>
    (reason h).any (fun r => r.1 = .bootTimeout) && h.createdImage ≠ "" && h.createdImage = p.image
  { p.each fun h => (reason h).elim h fun r => leaving r.2 h with imageFailed := p.imageFailed || failed }

def returnCandidates (now : Int) (p : Pool) : List Candidate × Pool :=
  let idle := p.sorted.filterMap fun h => (p.returnReason cfg now (p.baseHosts cfg) h).map fun r =>
    { host := h.host, previous := h.phase, reason := r.1, stop := r.2 : Candidate }
  let q := p.returnIdle cfg now
  let stopped := q.stoppedCandidates cfg now
  (idle ++ stopped.map fun r => { host := r.1.host, previous := .stopped, reason := r.2, stop := false : Candidate },
    q.each fun h => if stopped.any (·.1.id = h.id) then leaving false h else h)

def restorePhase (hostID : String) (previous : Phase) (p : Pool) : Pool :=
  p.update hostID fun h => if h.phase = .deleting || h.phase = .stopping then { h with phase := previous } else h

/-- `stopHost`, once the source has stopped the host. -/
def hostStoppedAt (now : Int) (hostID : String) (p : Pool) : Pool :=
  p.update hostID fun h => { markStopped now h with changedAt := now }

/-! ### Growing -/

def startingHost (now : Int) (h : HostState) : HostState := { h with phase := .starting, changedAt := now }

/-- Start up to `want` stopped hosts: their IDs, and how many hosts are still wanted. -/
def growStarts (now : Int) : Nat → Pool → List String × Nat × Pool
  | 0, p => ([], 0, p)
  | want + 1, p =>
    match p.startable cfg now with
    | none => ([], want + 1, p)
    | some h =>
      let r := growStarts now want (p.update h.id (startingHost now))
      (h.host.id :: r.1, r.2.1, r.2.2)

def placeholder (seq : Nat) : String := "creating-" ++ Text.itoa seq

def creatingHost (now : Int) (seq : Nat) : HostState :=
  { id := placeholder seq, host := { id := "" }, phase := .creating, firstSeen := now }

def withPlaceholder (now : Int) (p : Pool) : Pool :=
  { p with createSeq := p.createSeq + 1, hosts := p.hosts.put (creatingHost now (p.createSeq + 1)) }

def growCreates (now : Int) : Nat → Pool → List String × Pool
  | 0, p => ([], p)
  | want + 1, p =>
    let r := growCreates now want (p.withPlaceholder now)
    (placeholder (p.createSeq + 1) :: r.1, r.2)

def active (h : HostState) : Bool :=
  match h.phase with
  | .creating | .starting | .booting | .ready => true
  | _ => false

def pending (h : HostState) : Bool :=
  match h.phase with
  | .creating | .starting => true
  | .booting => !h.everReady
  | _ => false

/-- How many hosts `grow` wants on top of what it has. -/
def wanted (p : Pool) : Nat :=
  let want := (cfg.minHosts - p.hosts.rows.countP active).toNat
  if want = 0 && 0 < p.demand && p.hosts.rows.countP pending = 0 then 1 else want

/-- How many hosts `grow` creates once it has started what it can. -/
def creations (now : Int) (left : Nat) (p : Pool) : Nat :=
  if now < p.createNotBefore then 0 else min left (cfg.maxHosts - p.hosts.size).toNat

/-- `grow`: the hosts to start, and the placeholders and the image of the hosts to create. -/
def grow (now : Int) (p : Pool) : (List String × List String × String) × Pool :=
  let starts := growStarts cfg now (p.wanted cfg) { p with demand := 0 }
  let creates := growCreates now (creations cfg now starts.2.1 starts.2.2) starts.2.2
  ((starts.1, creates.1, p.image), creates.2)

/-- `start`, once the source has answered. -/
def startFinished (now : Int) (id : String) (result : Option Err) (p : Pool) : Pool :=
  match p.hosts.get id with
  | none => p
  | some _ =>
    match result with
    | some err =>
      { p.update id fun h =>
          { h with
            changedAt := now
            phase := .stopped
            startFailures := if err.isCapacity then maxStartFailures else h.startFailures + 1
            notBefore := now + hostRefusalBackoff } with
        demand := p.demand + 1 }
    | none =>
      { p.update id fun h =>
          { h with
            changedAt := now
            phase := .booting
            bootSince := now
            runningSince := now
            ownBoot := true
            everReady := false
            startedByPool := true
            lastContact := 0
            stoppedSince := 0
            notBefore := 0 } with
        hostsListedAt := 0 }

def createdHost (now : Int) (image : String) (host : Host) : HostState where
  id := host.id
  host := host
  phase := .booting
  firstSeen := now
  ownBoot := true
  createdImage := image
  runningSince := firstNonZero [host.createdAt, now]

/-- `create`, once the source has answered. -/
def createFinished (now : Int) (placeholder image : String) (result : Except Err Host) (p : Pool) : Pool :=
  let p := p.forget placeholder
  match result with
  | .error _ =>
    let p := if now < p.createNotBefore then p else
      let backoff := min (max (p.createBackoff * 2) initialCreateBackoff) maximumCreateBackoff
      { p with createBackoff := backoff, createNotBefore := now + backoff }
    if image = p.image then { p with imageFailed := true } else p
  | .ok host =>
    let p := { p with createBackoff := 0 }
    if !validID host.id then p
    else if (p.hosts.get host.id).isSome then p.update host.id fun h => { h with host, ownBoot := true, createdImage := image }
    else { p with hosts := p.hosts.put (createdHost now image host) }

end Pool

end RunnerYard
