import Mathlib.Data.List.Sort
import RunnerYard.Base.Table
import RunnerYard.Base.Text
import RunnerYard.Provider.Error

/-!
# A pool and its hosts

The data of `pool.go` and the part of `compute.go` that only reads it. A host runs a fixed number of slots, each for one container; the pool keeps per host what it knows of the machine (its phase, what it last heard, the slots it believes taken and the slots it has reserved for launches under way).

Billed hours and the reported conditions are left out: nothing here decides by them. What the pool measures of its hosts is in `Usage`.
-/

namespace RunnerYard

namespace Pool

inductive Billing where
  | perSecond
  | perStartedHour
  | owned
  deriving DecidableEq, Repr

structure Facts where
  billing : Billing
  canCreate : Bool
  deriving DecidableEq, Repr

/-- `Host`, without the pinned key that only the SSH connection reads. -/
structure Host where
  id : String
  address : String := ""
  createdAt : Int := 0
  state : String := ""
  stateSince : Int := 0
  image : String := ""
  deriving DecidableEq, Repr

def hostStopped : String := "stopped"

structure Slot where
  index : Int
  controllerID : String := ""
  leaseID : String := ""
  runnerName : String := ""
  runnerID : Int := 0
  runnerScaleSetID : Int := 0
  state : String := ""
  createdAt : Int := 0
  deriving DecidableEq, Repr

structure HostInfo where
  slots : Int := 0
  image : String := ""
  ready : Bool := false
  deriving DecidableEq, Repr

structure StartRequest where
  image : String
  controllerID : String
  leaseID : String
  runnerName : String
  runnerID : Int
  runnerScaleSetID : Int
  jitConfig : String
  deadline : Int
  idleTimeoutSeconds : Int
  deriving DecidableEq, Repr

/-- `Follower.Related`; `Resolve` is a call. -/
structure Follower where
  related : String → Bool

/-- `Config`. `stopper` says whether the source is a `Stopper`. -/
structure Config where
  name : String
  controllerID : String
  image : String
  minHosts : Int
  maxHosts : Int
  facts : Facts
  stopper : Bool
  follow : Option Follower
  imageRefresh : Int
  maxLifetime : Int
  tick : Int
  hostListInterval : Int
  bootTimeout : Int
  unreachableGrace : Int
  idleReturn : Int
  hourMargin : Int
  idleStop : Int
  keepStopped : Int
  deleteStoppedAfter : Int
  speculative : Bool

/-- `ValidName`: `^[a-z][a-z0-9-]{0,30}$`. -/
def validName (name : String) : Bool :=
  match name.toList with
  | [] => false
  | first :: rest => first.isLower && rest.all (fun c => c.isLower || c.isDigit || c = '-') && rest.length ≤ 30

def orDefault (value fallback : Int) : Int := if value ≤ 0 then fallback else value

/-- The defaults of `New`. A source that cannot create hosts is not used as a `Stopper` either. -/
def Config.withDefaults (cfg : Config) : Config :=
  let idleReturn := orDefault cfg.idleReturn (2 * Duration.minute)
  { cfg with
    tick := orDefault cfg.tick (10 * Duration.second)
    hostListInterval := orDefault cfg.hostListInterval (30 * Duration.second)
    bootTimeout := orDefault cfg.bootTimeout (10 * Duration.minute)
    unreachableGrace := orDefault cfg.unreachableGrace (2 * Duration.minute)
    idleReturn
    hourMargin := orDefault cfg.hourMargin (2 * Duration.minute)
    deleteStoppedAfter := orDefault cfg.deleteStoppedAfter (6 * Duration.hour)
    imageRefresh := orDefault cfg.imageRefresh (5 * Duration.minute)
    idleStop := orDefault cfg.idleStop idleReturn
    stopper := cfg.facts.canCreate && cfg.stopper }

/-- Why `New` refuses a configuration. -/
def Config.refusal (cfg : Config) : Option String :=
  let pool := "pool " ++ cfg.name
  if !validName cfg.name then some ("pool name " ++ Text.quote cfg.name ++ " must be lowercase letters, digits, and hyphens")
  else if cfg.controllerID = "" || cfg.image = "" then
    some (pool ++ " requires a controller ID, a runner image, a host source, and a host agent")
  else if cfg.facts.canCreate && (cfg.minHosts < 0 || cfg.maxHosts < 1 || cfg.maxHosts < cfg.minHosts) then
    some (pool ++ " host bounds must satisfy 0 <= min_hosts <= max_hosts and max_hosts >= 1")
  else if !cfg.facts.canCreate && (cfg.minHosts ≠ 0 || cfg.maxHosts ≠ 0) then
    some (pool ++ " source cannot create hosts, so min_hosts and max_hosts do not apply")
  else if cfg.follow.isSome && !cfg.facts.canCreate then
    some (pool ++ " source cannot create hosts, so it cannot follow an image tag")
  else if cfg.maxLifetime < Duration.minute then some (pool ++ " requires the worker maximum lifetime")
  else if cfg.facts.billing = .perStartedHour && cfg.hourMargin ≤ cfg.tick then
    some (pool ++ " must check its hosts more often than its paid-hour margin")
  else if !cfg.stopper && cfg.keepStopped ≠ 0 then some (pool ++ " source cannot stop hosts, so keep_stopped does not apply")
  else if cfg.keepStopped < 0 || cfg.maxHosts < cfg.keepStopped then
    some (pool ++ " must keep between 0 and max_hosts stopped hosts")
  else none

/-- `New`, up to the pool it returns. -/
def Config.checked (raw : Config) : Except Err Config :=
  match raw.withDefaults.refusal with
  | some message => .error (.text message)
  | none => .ok raw.withDefaults

theorem Config.checked_eq {raw cfg : Config} (h : raw.checked = .ok cfg) : cfg = raw.withDefaults := by
  unfold Config.checked at h
  split at h
  · simp at h
  · exact (Except.ok.inj h).symm

theorem orDefault_pos {value fallback : Int} (h : 0 < fallback) : 0 < orDefault value fallback := by
  unfold orDefault
  split <;> omega

theorem Config.unreachableGrace_pos {raw cfg : Config} (h : raw.checked = .ok cfg) : 0 < cfg.unreachableGrace := by
  rw [Config.checked_eq h]
  exact orDefault_pos (by decide)

def hostRefusalBackoff : Int := Duration.minute

def initialCreateBackoff : Int := Duration.minute

def maximumCreateBackoff : Int := 15 * Duration.minute

def maxStartAttempts : Nat := 3

def maxStartFailures : Int := 2

def imageRetry : Int := Duration.minute

def replaceInterval : Int := 5 * Duration.minute

inductive Phase where
  | creating
  | booting
  | ready
  | draining
  | deleting
  | stopping
  | stopped
  | starting
  deriving DecidableEq, Repr

inductive Drain where
  | imageMismatch
  | imageStale
  deriving DecidableEq, Repr

inductive Reason where
  | bootTimeout
  | unreachable
  | image (why : Drain)
  | paidHourEnding
  | idle
  | stoppedExpired
  | startFailed
  deriving DecidableEq, Repr

/-- `hostState`. `id` is its key in the pool's map: the host's own, or the placeholder of a host being created. -/
structure HostState where
  id : String
  host : Host
  phase : Phase
  info : HostInfo := {}
  slots : Table Slot.index := .empty
  reserved : Table (Prod.fst : Int × String → Int) := .empty
  firstSeen : Int
  lastContact : Int := 0
  lastListed : Int := 0
  everReady : Bool := false
  ownBoot : Bool := false
  emptySince : Int := 0
  notBefore : Int := 0
  drainReason : Option Drain := none
  bootSince : Int := 0
  runningSince : Int := 0
  stoppedSince : Int := 0
  startedByPool : Bool := false
  startFailures : Int := 0
  changedAt : Int := 0
  createdImage : String := ""
  deriving DecidableEq

namespace HostState

def withID (h : HostState) (id : String) : HostState := { h with id }

@[simp] theorem withID_id (h : HostState) (id : String) : (h.withID id).id = id := rfl

def occupied (h : HostState) : Nat := h.slots.size

def indexes (h : HostState) : List Int := (List.range h.info.slots.toNat).map Int.ofNat

def isFree (h : HostState) (index : Int) : Bool := (h.slots.get index).isNone && (h.reserved.get index).isNone

def freeSlot (h : HostState) : Option Int := h.indexes.find? h.isFree

def freeCount (h : HostState) : Nat := h.indexes.countP h.isFree

def running (h : HostState) : Bool :=
  match h.phase with
  | .creating | .stopped | .starting | .stopping => false
  | _ => true

def vacant (h : HostState) : Bool := h.slots.size = 0 && h.reserved.size = 0

end HostState

/-- `latest`, which starts from the zero time. -/
def latest (values : List Int) : Int := values.foldl max 0

def earliest (value limit : Int) : Int := if value ≠ 0 && value < limit then value else limit

def firstNonZero (values : List Int) : Int := (values.find? (· ≠ 0)).getD 0

/-- `remainingPaid`. `age % time.Hour` has the sign of `age`, which is not negative there. -/
def remainingPaid (age : Int) : Int := if age < 0 then Duration.hour else Duration.hour - age % Duration.hour

end Pool

/-- The state of a `Pool` that its mutex guards. -/
structure Pool where
  hosts : Table Pool.HostState.id := .empty
  hostsListedAt : Int := 0
  hostsKnown : Bool := false
  demand : Nat := 0
  createSeq : Nat := 0
  createNotBefore : Int := 0
  createBackoff : Int := 0
  launched : Nat := 0
  image : String
  imageResolved : Bool := false
  imageCheckAt : Int := 0
  replaceNotBefore : Int := 0
  imageFailed : Bool := false
  deriving DecidableEq

namespace Pool

def new (cfg : Config) : Pool where
  image := cfg.image

variable (cfg : Config) (p : Pool)

def sorted : List HostState := p.hosts.rows.insertionSort fun a b => a.id ≤ b.id

def update (id : String) (f : HostState → HostState) : Pool :=
  match p.hosts.get id with
  | none => p
  | some h => { p with hosts := p.hosts.put ((f h).withID h.id) }

def forget (id : String) : Pool := { p with hosts := p.hosts.erase id }

/-- `accepts`: whether a host on `image` may serve slots. -/
def accepts (image : String) : Bool :=
  image = p.image || image = cfg.image || (cfg.follow.elim false fun follower => follower.related image)

/-- `stale`: whether a host on `image` is due for replacement. -/
def stale (image : String) : Bool := cfg.follow.isSome && p.imageResolved && image ≠ p.image

def takesLeases (h : HostState) (now : Int) : Bool :=
  h.phase = .ready && ¬now < h.notBefore && h.lastContact ≠ 0 && now - h.lastContact ≤ cfg.unreachableGrace

def freeSlots (now : Int) : Nat := ((p.hosts.rows.filter fun h => takesLeases cfg h now).map HostState.freeCount).sum

/-- `unusable`: why a stopped host must not be started again. -/
def unusable (h : HostState) : Option Reason :=
  match h.drainReason with
  | some why => some (.image why)
  | none =>
    if h.host.image ≠ "" && !p.accepts cfg h.host.image then some (.image .imageMismatch)
    else if h.host.image ≠ "" && p.stale cfg h.host.image then some (.image .imageStale)
    else if h.startFailures ≥ maxStartFailures then some .startFailed
    else none

/-- `startable`: the most recently stopped host that may be started. -/
def startable (now : Int) : Option HostState :=
  if !cfg.stopper then none
  else p.sorted.foldl (fun best h =>
    if h.phase ≠ .stopped || now < h.notBefore || (p.unusable cfg h).isSome then best
    else match best with
      | none => some h
      | some b => if b.stoppedSince < h.stoppedSince then some h else some b) none

/-- The order of `baseHosts`: the oldest first. -/
def olderFirst (a b : HostState) : Bool :=
  if a.host.createdAt ≠ b.host.createdAt then a.host.createdAt < b.host.createdAt else a.host.id ≤ b.host.id

/-- `baseHosts`: the `min_hosts` oldest ready hosts. -/
def baseHosts : List HostState :=
  ((p.hosts.rows.filter (·.phase = .ready)).insertionSort fun a b => olderFirst a b = true).take cfg.minHosts.toNat

def roomComing (now : Int) : Bool :=
  p.hosts.rows.any (fun h => h.phase = .creating || h.phase = .starting || h.phase = .booting) ||
    (p.startable cfg now).isSome ||
    (cfg.facts.canCreate && p.hosts.size < cfg.maxHosts && ¬now < p.createNotBefore)

end Pool

end RunnerYard
