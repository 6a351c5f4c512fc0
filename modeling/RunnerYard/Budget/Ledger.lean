import RunnerYard.Base.Lists
import RunnerYard.Provider.Error

/-!
# The runner usage ledger

`usage_budget.go`: one entry per lease, charged with a full reservation when the lease is admitted and with its real running time when it ends. Every call holds the ledger's lock, so each is one function on the ledger, under the source's name. The write to disk is the only thing that can fail inside a call; its outcome is an argument, `none` for a write that succeeds.
-/

namespace RunnerYard

structure UsageEntry where
  leaseID : String
  chargedAt : Int
  startedAt : Int
  seconds : Int
  active : Bool
  confirmed : Bool := false
  deriving DecidableEq, Repr

/-- `usageBudget`, less its lock and the name of its file. -/
structure UsageBudget where
  limit : Int
  window : Int
  reservation : Int
  entries : List UsageEntry
  deriving DecidableEq, Repr

/-- What a call leaves behind: its result, the ledger in memory, what it handed to `persist` if it got that far, and, for the history only, the entries the window passed. -/
structure LedgerUpdate (α : Type) where
  result : α
  budget : UsageBudget
  saved : Option (List UsageEntry) := none
  dropped : List UsageEntry := []

def longestReservation : Int := 24 * Duration.hour

def maxInt64 : Int := 2 ^ 63 - 1

namespace UsageEntry

def endsAt (entry : UsageEntry) : Int := entry.startedAt + Duration.ofSeconds entry.seconds

/-- The first loop of `prune`: an active entry whose reserved time has passed ends there. -/
def expire (now : Int) (entry : UsageEntry) : UsageEntry :=
  if entry.active && decide (entry.endsAt ≤ now) then
    { entry with active := false, chargedAt := entry.endsAt }
  else entry

def stale (cutoff : Int) (entry : UsageEntry) : Bool := !entry.active && decide (entry.chargedAt < cutoff)

def activeFor (leaseID : String) (entry : UsageEntry) : Bool := decide (entry.leaseID = leaseID) && entry.active

end UsageEntry

namespace UsageBudget

def prune (b : UsageBudget) (now : Int) : UsageBudget :=
  { b with entries := (b.entries.map (·.expire now)).filter fun entry => !entry.stale (now - b.window) }

def pruned (b : UsageBudget) (now : Int) : List UsageEntry :=
  (b.entries.map (·.expire now)).filter fun entry => entry.stale (now - b.window)

/-- What `prune` returns: an entry expired, or the ledger got shorter. -/
def pruneChanges (b : UsageBudget) (now : Int) : Bool :=
  b.entries.any (fun entry => entry.active && decide (entry.endsAt ≤ now)) ||
    decide ((b.prune now).entries.length ≠ b.entries.length)

def usedSeconds (b : UsageBudget) : Int := (b.entries.map (·.seconds)).sum

def nextAvailable (b : UsageBudget) (now : Int) : Int :=
  match (b.entries.filter fun entry => !entry.active).map (·.chargedAt) with
  | [] => now + b.window
  | first :: rest => rest.foldl min first + b.window

def reserved (b : UsageBudget) (leaseID : String) (now : Int) : UsageEntry :=
  { leaseID, chargedAt := now, startedAt := now, seconds := Duration.seconds b.reservation, active := true }

def admits (b : UsageBudget) (requested : Int) : Bool :=
  !(decide (b.usedSeconds > Duration.seconds b.limit) ||
    decide (requested > Duration.seconds b.limit - b.usedSeconds))

/-- `reserve`: whether the lease is admitted, and when not, when to ask again. -/
def reserve (b : UsageBudget) (leaseID : String) (now maximum : Int) (disk : Option String) :
    LedgerUpdate (Except Err (Bool × Int)) :=
  let dropped := b.pruned now
  let b := b.prune now
  if b.entries.any fun entry => entry.leaseID = leaseID then
    { result := .error (.text s!"runner usage budget already contains lease {leaseID}"), budget := b, dropped }
  else if Duration.seconds maximum ≠ Duration.seconds b.reservation then
    { result := .error (.text "runner reservation must equal configured maximum lifetime"), budget := b, dropped }
  else if b.admits (Duration.seconds maximum) then
    let entries := b.entries ++ [b.reserved leaseID now]
    match disk with
    | none => { result := .ok (true, 0), budget := { b with entries }, saved := some entries, dropped }
    | some failure => { result := .error (.disk failure), budget := b, saved := some entries, dropped }
  else { result := .ok (false, b.nextAvailable now), budget := b, dropped }

def settled (stoppedAt now : Int) (previous : UsageEntry) : UsageEntry :=
  let stopped := if stoppedAt = 0 || stoppedAt < previous.startedAt || now < stoppedAt then now else stoppedAt
  { previous with
    active := false
    chargedAt := now
    seconds := min previous.seconds (max 1 (Duration.seconds (stopped - previous.startedAt))) }

def settleAt (b : UsageBudget) (leaseID : String) (stoppedAt now : Int) (disk : Option String) :
    LedgerUpdate (Option Err) :=
  if b.entries.any (·.activeFor leaseID) then
    let charged := { b with entries := updateFirst (·.activeFor leaseID) (settled stoppedAt now) b.entries }
    let after := charged.prune now
    match disk with
    | none => { result := none, budget := after, saved := some after.entries, dropped := charged.pruned now }
    | some failure => { result := some (.disk failure), budget := b, saved := some after.entries }
  else { result := none, budget := b }

def forfeited (now : Int) (previous : UsageEntry) : UsageEntry := { previous with active := false, chargedAt := now }

def forfeit (b : UsageBudget) (leaseID : String) (now : Int) (disk : Option String) : LedgerUpdate (Option Err) :=
  if b.entries.any (·.activeFor leaseID) then
    let entries := updateFirst (·.activeFor leaseID) (forfeited now) b.entries
    match disk with
    | none => { result := none, budget := { b with entries }, saved := some entries }
    | some failure => { result := some (.disk failure), budget := b, saved := some entries }
  else { result := none, budget := b }

def release (b : UsageBudget) (leaseID : String) (disk : Option String) : LedgerUpdate (Option Err) :=
  if b.entries.any (·.activeFor leaseID) then
    let entries := b.entries.eraseP (·.activeFor leaseID)
    match disk with
    | none => { result := none, budget := { b with entries }, saved := some entries }
    | some failure => { result := some (.disk failure), budget := b, saved := some entries }
  else { result := none, budget := b }

def confirmed (b : UsageBudget) (entry : UsageEntry) : UsageEntry :=
  { entry with confirmed := true, seconds := max entry.seconds (Duration.seconds b.reservation) }

/-- The entry `adopt` writes for a lease that has none, or whose entry had ended. -/
def adopted (b : UsageBudget) (leaseID : String) (startedAt : Int) : UsageEntry :=
  { leaseID, chargedAt := startedAt, startedAt, seconds := Duration.seconds b.reservation, active := true, confirmed := true }

/-- `adopt`; `now` is the clock it reads. A lease without an entry stays appended when the write fails. -/
def adopt (b : UsageBudget) (leaseID : String) (startedAt now : Int) (disk : Option String) :
    LedgerUpdate (Option Err) :=
  if leaseID = "" then { result := some (.text "cannot adopt a worker without a lease ID"), budget := b }
  else
    let startedAt := if startedAt = 0 then now else startedAt
    match b.entries.find? fun entry => entry.leaseID = leaseID with
    | some entry =>
      if entry.active && entry.confirmed then { result := none, budget := b }
      else
        let entry := if entry.active then b.confirmed entry else b.adopted leaseID startedAt
        let entries := updateFirst (fun other => other.leaseID = leaseID) (fun _ => entry) b.entries
        match disk with
        | none => { result := none, budget := { b with entries }, saved := some entries }
        | some failure => { result := some (.disk failure), budget := b, saved := some entries }
    | none =>
      let entries := b.entries ++ [b.adopted leaseID startedAt]
      { result := disk.map .disk, budget := { b with entries }, saved := some entries }

/-- The loop of `reconcile`: an active lease without a worker ends now, and a confirmed one is charged up to now. -/
def ended (activeLeases : List String) (now : Int) (entry : UsageEntry) : UsageEntry :=
  if entry.active && !activeLeases.contains entry.leaseID then
    { entry with
      active := false
      chargedAt := now
      seconds := if entry.confirmed then min entry.seconds (max 1 (Duration.seconds (now - entry.startedAt))) else entry.seconds }
  else entry

def reconcile (b : UsageBudget) (activeLeases : List String) (now : Int) (disk : Option String) :
    LedgerUpdate (Option Err) :=
  let closed := { b with entries := b.entries.map (ended activeLeases now) }
  let after := closed.prune now
  let changed := b.entries.any (fun entry => entry.active && !activeLeases.contains entry.leaseID) || closed.pruneChanges now
  if changed then
    match disk with
    | none => { result := none, budget := after, saved := some after.entries, dropped := closed.pruned now }
    | some failure => { result := some (.disk failure), budget := b, saved := some after.entries }
  else { result := none, budget := after, dropped := closed.pruned now }

/-- The loop of `validate`, from the entry at `index` with the leases seen and the seconds counted so far. -/
def validateFrom (reservation : Int) (index : Nat) (seen : List String) (total : Int) :
    List UsageEntry → Option Err
  | [] => none
  | entry :: rest =>
    if entry.leaseID = "" || entry.startedAt = 0 || entry.chargedAt = 0 then
      some (.text s!"invalid runner usage budget entry {index}: identity and timestamps are required")
    else if seen.contains entry.leaseID then
      some (.text s!"invalid runner usage budget: duplicate lease {entry.leaseID}")
    else if entry.seconds < 1 || Duration.seconds longestReservation < entry.seconds then
      some (.text s!"invalid runner usage budget entry {entry.leaseID}: seconds must be between 1 and 86400")
    else if entry.active && decide (entry.seconds < Duration.seconds reservation) then
      some (.text s!"invalid runner usage budget entry {entry.leaseID}: active reservation is undercharged")
    else if !entry.active && decide (entry.chargedAt < entry.startedAt) then
      some (.text s!"invalid runner usage budget entry {entry.leaseID}: charge precedes start")
    else if maxInt64 - entry.seconds < total then
      some (.text "invalid runner usage budget: usage overflow")
    else validateFrom reservation (index + 1) (seen ++ [entry.leaseID]) (total + entry.seconds) rest

def validate (b : UsageBudget) : Option Err := validateFrom b.reservation 0 [] 0 b.entries

/-- `newUsageBudget` on a ledger file that reads as `file`. -/
def load (limit window reservation : Int) (file : List UsageEntry) (now : Int) (disk : Option String) :
    LedgerUpdate (Option Err) :=
  let b : UsageBudget := { limit, window, reservation, entries := file }
  if limit ≤ 0 || window ≤ 0 || reservation ≤ 0 || limit < reservation then
    { result := some (.text "runner usage budget, window, and state file are required"), budget := b }
  else
    match b.validate with
    | some failure => { result := some failure, budget := b }
    | none =>
      if b.pruneChanges now then
        { result := disk.map .disk, budget := b.prune now, saved := some (b.prune now).entries, dropped := b.pruned now }
      else { result := none, budget := b.prune now, dropped := b.pruned now }

end UsageBudget

end RunnerYard
