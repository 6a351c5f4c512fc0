import RunnerYard.Interaction.Traces
import RunnerYard.Pool.Effects

/-!
# Placement

`placement.go`: the tiers of a fleet in launch order. A tier is a pool, or a provider that boots a machine for every worker. A launch goes to the first tier with room; a speculative launch only to free slots of the pools that stand before every booting tier. Worker IDs carry the name of their tier.
-/

namespace RunnerYard

open Interaction Prog

/-- The worker of the first `PartialLaunchError` of the tree is changed through its pointer. -/
def Err.mapPartialLaunch (f : Worker → Worker) : Err → Err
  | .wrap message cause => .wrap message (cause.mapPartialLaunch f)
  | .join first second =>
    if first.asPartialLaunch.isSome then .join (first.mapPartialLaunch f) second else .join first (second.mapPartialLaunch f)
  | .transient cause => .transient (cause.mapPartialLaunch f)
  | .capacity reason retryAfter cause => .capacity reason retryAfter (cause.mapPartialLaunch f)
  | .partialLaunch worker cause => .partialLaunch (f worker) cause
  | .launchRejected reason cause => .launchRejected reason (cause.mapPartialLaunch f)
  | .handlerFailure cause => .handlerFailure (cause.mapPartialLaunch f)
  | e => e

namespace Placement

inductive Compute where
  | pool (cfg : Pool.Config)
  | machines

def Compute.isPool : Compute → Bool
  | pool _ => true
  | machines => false

structure Tier where
  name : String
  compute : Compute
  drain : Bool := false

/-- The loop of `NewPlacement`. -/
def check : List Tier → (seen : List String) → Option Err
  | [], _ => none
  | tier :: rest, seen =>
    if !Pool.validName tier.name then some (.text ("invalid placement tier " ++ Text.quote tier.name))
    else if tier.name ∈ seen then some (.text ("placement tier " ++ Text.quote tier.name ++ " appears twice"))
    else check rest (tier.name :: seen)

theorem nodup_of_check {tiers : List Tier} {seen : List String} (h : check tiers seen = none) (hseen : seen.Nodup) :
    (∀ tier ∈ tiers, Pool.validName tier.name = true) ∧ (tiers.map Tier.name ++ seen).Nodup := by
  induction tiers generalizing seen with
  | nil => exact ⟨by simp, hseen⟩
  | cons tier rest ih =>
    unfold check at h
    split_ifs at h with hvalid hnew
    obtain ⟨hrest, hnodup⟩ := ih h (List.nodup_cons.mpr ⟨hnew, hseen⟩)
    refine ⟨?_, ?_⟩
    · intro other hother
      rcases List.mem_cons.mp hother with rfl | hother
      · simpa using hvalid
      · exact hrest other hother
    · exact (List.perm_middle.nodup_iff).mp hnodup

end Placement

/-- `Placement`: its tiers have valid names, no two the same, and one of them starts workers. -/
structure Placement where
  tiers : List Placement.Tier
  valid : ∀ tier ∈ tiers, Pool.validName tier.name = true
  distinct : (tiers.map Placement.Tier.name).Nodup
  launching : tiers.any (!·.drain) = true

namespace Placement

/-- `NewPlacement`. -/
def new (tiers : List Tier) : Except Err Placement :=
  if tiers.isEmpty then .error (.text "placement requires at least one tier")
  else if hcheck : check tiers [] = none then
    if hlaunching : tiers.any (!·.drain) = true then
      .ok
        { tiers
          valid := (nodup_of_check hcheck List.nodup_nil).1
          distinct := by simpa using (nodup_of_check hcheck List.nodup_nil).2
          launching := hlaunching }
    else .error (.text "placement requires at least one tier that starts workers")
  else .error ((check tiers []).getD (.text ""))

/-- The pools that take speculative runners: those that stand before every tier that boots machines. -/
def spareTiers : (bootsBefore : Bool) → List Tier → List Tier
  | _, [] => []
  | bootsBefore, tier :: rest =>
    if tier.drain then spareTiers bootsBefore rest
    else match tier.compute with
      | .machines => spareTiers true rest
      | .pool cfg =>
        if cfg.speculative && !bootsBefore then tier :: spareTiers bootsBefore rest else spareTiers bootsBefore rest

inductive Call where
  | pool (tier : String) (op : Pool.Call)
  | freeSlots (tier : String)
  | launch (tier : String) (lease : Lease)

@[reducible] def Call.Ans : Call → Type
  | pool _ op => op.Ans
  | freeSlots _ => Nat
  | launch _ _ => Except Err Worker

def inTier {α : Type} (tier : String) (p : Prog Pool.Call.Ans α) : Prog Call.Ans α := p.embed (Call.pool tier) fun _ answer => answer

/-- The tier's `Launch`, or its `launchSpare` when it is not to grow. -/
def Tier.launch (tier : Tier) (lease : Lease) (grow : Bool) : Prog Call.Ans (Except Err Worker) :=
  match tier.compute with
  | .pool cfg => inTier tier.name (Pool.launch cfg lease grow)
  | .machines => perform (Call.launch tier.name lease)

def Tier.workerID (tier : Tier) (id : String) : String := tier.name ++ ":" ++ id

def Tier.own (tier : Tier) (worker : Worker) : Worker := { worker with id := tier.workerID worker.id }

/-- A partial launch names its worker, if it names one, as the placement does. -/
def Tier.ownPartial (tier : Tier) (err : Err) : Err :=
  err.mapPartialLaunch fun worker => if worker.id = "" then worker else tier.own worker

/-- The loop of `Launch`. A placement has a tier that starts workers, so the list is not empty when it begins. -/
def launchFrom (lease : Lease) : List Tier → Prog Call.Ans (Except Err Worker)
  | [] => return .ok { leaseID := "", runnerName := "" }
  | tier :: rest => do
    match ← tier.launch lease true with
    | .ok worker => return .ok (tier.own worker)
    | .error err =>
      if err.asPartialLaunch.isSome then
        return .error (tier.ownPartial err)
      else if err.isCapacity && !rest.isEmpty then
        launchFrom lease rest
      else
        return .error err

/-- The loop of `LaunchSpare`. -/
def launchSpareFrom (lease : Lease) : (lastErr : Err) → List Tier → Prog Call.Ans (Except Err Worker)
  | lastErr, [] => return .error lastErr
  | _, tier :: rest => do
    match ← tier.launch lease false with
    | .ok worker => return .ok (tier.own worker)
    | .error err =>
      if err.asPartialLaunch.isSome then
        return .error (tier.ownPartial err)
      else if err.isCapacity then
        launchSpareFrom lease err rest
      else
        return .error err

def spareRoomOf : List Tier → Prog Call.Ans Nat
  | [] => return 0
  | tier :: rest => do
    let free ← perform (Call.freeSlots tier.name)
    let others ← spareRoomOf rest
    return free + others

variable (p : Placement)

def spare : List Tier := spareTiers false p.tiers

def launch (lease : Lease) : Prog Call.Ans (Except Err Worker) := launchFrom lease (p.tiers.filter (!·.drain))

def spareRoom : Prog Call.Ans Nat := spareRoomOf p.spare

def launchSpare (lease : Lease) : Prog Call.Ans (Except Err Worker) :=
  launchSpareFrom lease (.capacity Pool.capacityReasonFull 0 (.wrap "no speculative pool" .poolFull)) p.spare

def byName (name : String) : Option Tier := p.tiers.find? (·.name = name)

def fast (workerID : String) : Bool :=
  match Text.cut ':' workerID with
  | none => false
  | some (name, _) => (p.byName name).any (·.compute.isPool)

/-! ### Speculative launches -/

section Spare

variable {p : Placement}

theorem mem_spareTiers {bootsBefore : Bool} {tiers : List Tier} {tier : Tier} (h : tier ∈ spareTiers bootsBefore tiers) :
    tier ∈ tiers ∧ tier.compute.isPool = true := by
  induction tiers generalizing bootsBefore with
  | nil => simp [spareTiers] at h
  | cons first rest ih =>
    have hlater : ∀ {boots : Bool}, tier ∈ spareTiers boots rest → tier ∈ first :: rest ∧ tier.compute.isPool = true := fun hmem =>
      ⟨List.mem_cons_of_mem _ (ih hmem).1, (ih hmem).2⟩
    unfold spareTiers at h
    split at h
    · exact hlater h
    · split at h
      · exact hlater h
      · rename_i cfg hcompute
        split at h
        · rcases List.mem_cons.mp h with rfl | hrest
          · exact ⟨List.mem_cons_self, by rw [hcompute]; rfl⟩
          · exact hlater hrest
        · exact hlater h

/-- The worker runs in a slot of one of the pools that take speculative runners. -/
def InSpare (p : Placement) (workerID : String) : Prop := ∃ tier ∈ p.spare, ∃ id, workerID = tier.workerID id

theorem separator_of_validName {name : String} (h : Pool.validName name = true) : ':' ∉ name.toList := by
  intro hmem
  unfold Pool.validName at h
  split at h
  · simp at h
  · rename_i first rest hchars
    rw [hchars] at hmem
    simp only [Bool.and_eq_true, List.all_eq_true, Bool.or_eq_true] at h
    rcases List.mem_cons.mp hmem with rfl | hmem
    · exact absurd h.1.1 (by decide)
    · exact absurd (h.1.2 _ hmem) (by decide)

theorem byName_of_mem {tier : Tier} (h : tier ∈ p.tiers) : p.byName tier.name = some tier := by
  have hpairs : p.tiers.Pairwise fun a b => a.name ≠ b.name := List.pairwise_map.mp p.distinct
  unfold byName
  rw [List.find?_eq_some_iff_getElem]
  obtain ⟨i, hi, rfl⟩ := List.getElem_of_mem h
  refine ⟨by simp, i, hi, rfl, fun j hj => ?_⟩
  simpa using List.pairwise_iff_getElem.mp hpairs j i (by omega) hi hj

theorem fast_of_inSpare {workerID : String} (h : p.InSpare workerID) : p.fast workerID = true := by
  obtain ⟨tier, htier, id, rfl⟩ := h
  obtain ⟨hmem, hpool⟩ := mem_spareTiers htier
  have hcut : Text.cut ':' (tier.workerID id) = some (tier.name, id) := Text.cut_append (separator_of_validName (p.valid tier hmem)) id
  unfold fast
  rw [hcut]
  simp [byName_of_mem hmem, hpool]

/-- One of the pools that take speculative runners is called, and not to grow. -/
def Sparing (p : Placement) (op : Call) : Prop := ∃ tier ∈ p.spare, ∃ called, op = .pool tier.name called ∧ called.launching false = true

theorem launchSpareFrom_calls (lease : Lease) (tiers : List Tier) (htiers : ∀ tier ∈ tiers, tier ∈ p.spare) (lastErr : Err) :
    All p.Sparing (launchSpareFrom lease lastErr tiers) := by
  induction tiers generalizing lastErr with
  | nil => exact all_pure _
  | cons tier rest ih =>
    have htier := htiers tier List.mem_cons_self
    have hrest := ih fun other hother => htiers other (List.mem_cons_of_mem _ hother)
    have hlaunch : All p.Sparing (tier.launch lease false) := by
      obtain ⟨-, hpool⟩ := mem_spareTiers htier
      unfold Tier.launch
      split
      · rename_i cfg hcompute
        exact (Pool.makes_launching cfg lease false).embed fun op hop => ⟨tier, htier, op, rfl, hop⟩
      · rename_i hcompute
        rw [hcompute] at hpool
        simp [Compute.isPool] at hpool
    refine hlaunch.bind fun result => ?_
    cases result with
    | ok worker => exact all_pure _
    | error err =>
      dsimp only
      split
      · exact all_pure _
      · split
        · exact hrest err
        · exact all_pure _

theorem launchSpare_calls (p : Placement) (lease : Lease) : All p.Sparing (p.launchSpare lease) :=
  launchSpareFrom_calls lease p.spare (fun _ => id) _

theorem launchSpareFrom_ok {lease : Lease} {tiers : List Tier} {lastErr : Err} {trace : List (Event Call.Ans)} {worker : Worker}
    (h : Yields (launchSpareFrom lease lastErr tiers) trace (.ok worker)) : ∃ tier ∈ tiers, ∃ id, worker.id = tier.workerID id := by
  induction tiers generalizing lastErr trace with
  | nil =>
    obtain ⟨-, heq⟩ := yields_pure_iff.mp h
    simp at heq
  | cons tier rest ih =>
    obtain ⟨front, back, result, rfl, -, hback⟩ := yields_bind_iff.mp h
    cases result with
    | ok started =>
      obtain ⟨-, heq⟩ := yields_pure_iff.mp hback
      simp only [Except.ok.injEq] at heq
      exact ⟨tier, List.mem_cons_self, started.id, by rw [heq]; rfl⟩
    | error err =>
      dsimp only at hback
      split at hback
      · obtain ⟨-, heq⟩ := yields_pure_iff.mp hback
        simp at heq
      · split at hback
        · obtain ⟨other, hother, hid⟩ := ih hback
          exact ⟨other, List.mem_cons_of_mem _ hother, hid⟩
        · obtain ⟨-, heq⟩ := yields_pure_iff.mp hback
          simp at heq

theorem inSpare_of_launchSpare {lease : Lease} {trace : List (Event Call.Ans)} {worker : Worker}
    (h : Yields (p.launchSpare lease) trace (.ok worker)) : p.InSpare worker.id := launchSpareFrom_ok h

theorem exists_launchSpare {lease : Lease} {tier : Tier} {rest : List Tier} {cfg : Pool.Config} (hspare : p.spare = tier :: rest)
    (hcompute : tier.compute = .pool cfg) (hlease : (lease.id = "" || lease.runnerName = "" || lease.jitConfig = "" || '/' ∈ lease.id.toList) = false) (worker : Worker) :
    ∃ trace, Yields (p.launchSpare lease) trace (.ok (tier.own worker)) := by
  have hlaunch : tier.launch lease false = inTier tier.name (Pool.attempts cfg lease false Pool.maxStartAttempts) := by
    rw [Tier.launch, hcompute]
    dsimp only
    rw [Pool.launch, if_neg (by rw [hlease]; decide)]
  have hstarted : Yields (tier.launch lease false) [⟨.pool tier.name (.reserve lease.id), some ({ id := "" }, 0, "")⟩,
      ⟨.pool tier.name (.agentStart { id := "" } 0 (Pool.startRequest cfg lease "")), .ok { index := 0 }⟩,
      ⟨.pool tier.name (.commit "" 0 { index := 0 } lease), worker⟩] (.ok worker) := by
    rw [hlaunch]
    exact .call (.call (.call (.pure _)))
  rw [launchSpare, hspare]
  exact ⟨_, yields_bind_iff.mpr ⟨_, [], .ok worker, rfl, hstarted, .pure _⟩⟩

end Spare

end Placement

namespace Pool

/-- No host has been created or started, and none is asked for. -/
structure SameHosts (w w' : World) : Prop where
  demand : w'.pool.demand = w.pool.demand
  machines : ∀ id, (w'.machines.get id).map (fun m => (m.host, m.up)) = (w.machines.get id).map fun m => (m.host, m.up)

theorem demand_update (p : Pool) (id : String) (f : HostState → HostState) : (p.update id f).demand = p.demand := by
  unfold update
  split <;> rfl

theorem sameHosts_of_launching {cfg : Config} {op : Call} {choice : Choice} {w w' : World} {answer : op.Ans} (hop : op.launching false = true)
    (hexec : World.exec cfg op choice w = some (answer, w')) : SameHosts w w' ∧ op.forks answer = [] := by
  constructor
  · cases exec_executed hexec with
    | locked commits =>
      refine ⟨?_, fun _ => rfl⟩
      cases op <;> simp only [effect, id_eq] <;> try exact demand_update _ _ _
      case reserve leaseID =>
        unfold reserve
        split
        · rfl
        · exact demand_update _ _ _
      all_goals cases hop
    | made hmakes hfresh => cases hop
    | deleted => cases hop
    | changed hget hmove =>
      rename_i m m'
      refine ⟨rfl, fun id => ?_⟩
      cases hmove with
      | stopped => cases hop
      | booted => cases hop
      | removed => cases hop
      | started hid hup hfree =>
        dsimp only
        rw [Table.get_put]
        split
        · rename_i hid'
          rw [hid', hget]
          rfl
        · rfl
  · cases op <;> first | rfl | cases hop

end Pool

end RunnerYard
