import RunnerYard.Pool.Compute

/-!
# Which calls a method makes

One lemma for each part of `compute.go` says which calls it can make, whatever it is answered. What a goroutine never does is read off from here.
-/

namespace RunnerYard

open Interaction Prog

namespace Pool

namespace Call

def refreshes : Call → Bool
  | fresh | now | listHosts | applyHosts _ _ => true
  | _ => false

def probes : Call → Bool
  | hostsIn .probe | order _ | agentInfo _ | applyInfos _ => true
  | _ => false

def lists : Call → Bool
  | begun | order _ | agentList _ | applySlots _ => true
  | _ => false

def removes : Call → Bool
  | stoppedHost _ | agentRemove _ _ _ | cleared _ _ _ => true
  | _ => false

def follows : Call → Bool
  | followDue | resolve | followed _ => true
  | _ => false

def inventories : Call → Bool
  | known | hostsIn .inventory | inventory => true
  | op => op.refreshes || op.lists

def destroys : Call → Bool
  | hostAt _ => true
  | op => op.refreshes || op.removes

/-- The calls that read an unclear start back. -/
def readsBack : Call → Bool
  | timeLeft | agentList _ => true
  | _ => false

def launches : Call → Bool
  | noteFull | reserve _ | release _ _ | agentStart _ _ _ | commit _ _ _ _ | holdSuspect _ _ _ | markForeign _ _ | refuseHost _ _ | now => true
  | op => op.readsBack

/-- The calls of a launch, which asks for a host only when it may grow. -/
def launching (grow : Bool) : Call → Bool
  | noteFull => grow
  | op => op.launches

def returnsHosts : Call → Bool
  | returnCandidates | agentList _ | stopHost _ | deleteHost _ | restorePhase _ _ | hostStoppedAt _ | forget _ => true
  | _ => false

def maintains : Call → Bool
  | hostsIn .maintain | replaceStale | grow => true
  | op => op.follows || op.refreshes || op.probes || op.lists || op.returnsHosts

def creates : Call → Bool
  | createHost _ | createFinished _ _ _ => true
  | _ => false

def starts : Call → Bool
  | startHost _ | startFinished _ _ => true
  | _ => false

end Call

abbrev Makes {α : Type} (calls : Call → Bool) (p : Prog Call.Ans α) : Prop := All (fun op => calls op = true) p

variable {calls : Call → Bool}

theorem makes_ask {op : Call} (h : calls op = true) : Makes calls (ask op) := (all_perform op).mpr h

theorem Makes.mono {α : Type} {calls' : Call → Bool} {p : Prog Call.Ans α} (h : Makes calls p)
    (hcalls : ∀ op, calls op = true → calls' op = true) : Makes calls' p := All.mono h hcalls

theorem makes_refreshHosts (force : Bool) : Makes Call.refreshes (refreshHosts force) := by
  refine (makes_ask rfl).bind fun fresh => ?_
  split
  · exact all_pure _
  · refine (makes_ask rfl).bind fun started => (makes_ask rfl).bind fun answer => ?_
    cases answer with
    | error err => exact all_pure _
    | ok listed => exact (makes_ask rfl).bind fun _ => all_pure _

theorem makes_askAll {α : Type} {request : Host → Prog Call.Ans α} (hrequest : ∀ host, Makes calls (request host))
    (hosts : List Host) : Makes calls (askAll request hosts) := by
  induction hosts with
  | nil => exact all_pure _
  | cons host rest ih => exact (hrequest host).bind fun _ => ih.bind fun _ => all_pure _

theorem makes_parallel {α : Type} {request : Host → Prog Call.Ans α} {hosts : List Host}
    (horder : calls (.order hosts) = true) (hrequest : ∀ host, Makes calls (request host)) : Makes calls (parallel request hosts) :=
  (makes_ask horder).bind fun order => makes_askAll hrequest order

theorem makes_probe : Makes Call.probes probe := by
  refine (makes_ask rfl).bind fun booting => All.bind (makes_parallel rfl fun host => ?_) fun results => ?_
  · exact makes_ask rfl
  · exact makes_ask rfl

theorem makes_listSlots (hosts : List Host) : Makes Call.lists (listSlots hosts) := by
  refine (makes_ask rfl).bind fun begun => All.bind (makes_parallel rfl fun host => ?_) fun results => ?_
  · exact makes_ask rfl
  · exact makes_ask rfl

section

variable (cfg : Config)

theorem makes_removeFrom (host : Host) (hostID : String) (slot : Int) (leaseID : String) :
    Makes Call.removes (removeFrom cfg host hostID slot leaseID) := by
  refine (makes_ask rfl).bind fun stopped => ?_
  split
  · exact (makes_ask rfl).bind fun _ => all_pure _
  · refine (makes_ask rfl).bind fun answer => ?_
    cases answer with
    | none => exact (makes_ask rfl).bind fun _ => all_pure _
    | some err =>
      dsimp only
      split
      · exact (makes_ask rfl).bind fun _ => all_pure _
      · split <;> exact all_pure _

theorem makes_inventory : Makes Call.inventories (inventory cfg) := by
  refine ((makes_refreshHosts false).mono fun op hop => ?_).bind fun failure => (makes_ask rfl).bind fun known => ?_
  · cases op <;> first | rfl | cases hop
  split
  · exact all_pure _
  · refine (makes_ask rfl).bind fun hosts => ((makes_listSlots hosts).mono fun op hop => ?_).bind fun _ => (makes_ask rfl).bind fun _ => all_pure _
    cases op <;> first | rfl | cases hop

theorem makes_destroy (workerID : String) : Makes Call.destroys (destroy cfg workerID) := by
  have hremove : ∀ (host : Host) (hostID : String) (slot : Int) (leaseID : String), Makes Call.destroys (removeFrom cfg host hostID slot leaseID) :=
    fun host hostID slot leaseID => (makes_removeFrom cfg host hostID slot leaseID).mono fun op hop => by cases op <;> first | rfl | cases hop
  unfold destroy
  split
  · exact all_pure _
  · refine (makes_ask rfl).bind fun known => ?_
    cases known with
    | some host => exact hremove host _ _ _
    | none =>
      refine ((makes_refreshHosts true).mono fun op hop => ?_).bind fun failure => ?_
      · cases op <;> first | rfl | cases hop
      cases failure with
      | some err => exact all_pure _
      | none =>
        refine (makes_ask rfl).bind fun known => ?_
        cases known with
        | some host => exact hremove host _ _ _
        | none => exact all_pure _

theorem makes_followTag : Makes Call.follows (followTag cfg) := by
  unfold followTag
  split
  · refine (makes_ask rfl).bind fun due => ?_
    split
    · exact (makes_ask rfl).bind fun _ => makes_ask rfl
    · exact all_pure _
  · exact all_pure _

theorem makes_readLateStart (host : Host) (slot : Int) (lease : Lease) (answered : Bool) (reads : Nat) :
    Makes Call.readsBack (readLateStart cfg host slot lease answered reads) := by
  induction reads with
  | zero => exact all_pure _
  | succ reads ih =>
    refine (makes_ask rfl).bind fun left => ?_
    split
    · refine (makes_ask rfl).bind fun listing => ?_
      dsimp only
      split
      · exact all_pure _
      · split
        · exact all_pure _
        · exact ih
    · exact all_pure _

theorem makes_full (grow : Bool) : Makes (fun op => decide (op = .noteFull) && grow) (full cfg grow) := by
  unfold full
  dsimp only
  split
  · rename_i hgrow
    exact (makes_ask hgrow).bind fun _ => all_pure _
  · exact all_pure _

theorem makes_unconfirmed (host : Host) (slot : Int) (lease : Lease) (err : Err) (grow : Bool) :
    Makes (Call.launching grow) (unconfirmed cfg host slot lease err) := by
  refine ((makes_readLateStart cfg host slot lease _ _).mono fun op hop => ?_).bind fun late => ?_
  · cases op <;> first | rfl | cases hop
  · cases late with
    | some late => exact (makes_ask rfl).bind fun _ => all_pure _
    | none => exact (makes_ask rfl).bind fun _ => (makes_ask rfl).bind fun _ => all_pure _

theorem makes_attempts (lease : Lease) (grow : Bool) (left : Nat) : Makes (Call.launching grow) (attempts cfg lease grow left) := by
  have hfull : Makes (Call.launching grow) (full cfg grow) := (makes_full cfg grow).mono fun op hop => by
    rw [Bool.and_eq_true, decide_eq_true_eq] at hop
    rw [hop.1]
    exact hop.2
  induction left with
  | zero => exact hfull
  | succ left ih =>
    refine (makes_ask rfl).bind fun answer => ?_
    match answer with
    | none => exact hfull
    | some (host, slot, image) =>
      refine (makes_ask rfl).bind fun result => ?_
      have hretry : ∀ {op : Call} {p : Prog Call.Ans (Except Err Worker)}, op.launching grow = true → Makes (Call.launching grow) p →
          Makes (Call.launching grow) (do ask (.release host.id slot); let _ ← ask op; p) := fun hop hp =>
        (makes_ask rfl).bind fun _ => (makes_ask hop).bind fun _ => hp
      cases result with
      | ok started => exact (makes_ask rfl).bind fun _ => all_pure _
      | error err =>
        dsimp only
        split
        · exact hretry rfl ih
        split
        · exact hretry rfl ih
        split
        · exact hretry rfl ih
        split
        · exact (makes_ask rfl).bind fun _ => all_pure _
        · exact makes_unconfirmed cfg host slot lease err grow

theorem makes_launching (lease : Lease) (grow : Bool) : Makes (Call.launching grow) (launch cfg lease grow) := by
  unfold launch
  split
  · exact all_pure _
  · exact makes_attempts cfg lease grow _

theorem makes_launch (lease : Lease) (grow : Bool) : Makes Call.launches (launch cfg lease grow) :=
  (makes_launching cfg lease grow).mono fun op hop => by cases op <;> first | rfl | exact hop

theorem makes_returnHost (candidate : Candidate) : Makes Call.returnsHosts (returnHost candidate) := by
  have hconfirm : Makes Call.returnsHosts (confirmEmpty candidate) := by
    unfold confirmEmpty
    split
    · refine (makes_ask rfl).bind fun answer => ?_
      split <;> exact all_pure _
    · exact all_pure _
  refine hconfirm.bind fun empty => ?_
  split
  · split
    · refine (makes_ask rfl).bind fun failure => ?_
      cases failure <;> exact makes_ask rfl
    · refine (makes_ask rfl).bind fun failure => ?_
      cases failure <;> exact makes_ask rfl
  · exact makes_ask rfl

theorem makes_returnHosts : Makes Call.returnsHosts (returnHosts cfg) := by
  have hall : ∀ candidates, Makes Call.returnsHosts (returnAll candidates) := by
    intro candidates
    induction candidates with
    | nil => exact all_pure _
    | cons candidate rest ih => exact (makes_returnHost candidate).bind fun _ => ih
  unfold returnHosts
  split
  · exact (makes_ask rfl).bind fun candidates => hall candidates
  · exact all_pure _

end

theorem makes_maintain : Makes Call.maintains (maintain cfg) := by
  refine ((makes_followTag cfg).mono fun op hop => ?_).bind fun _ => ((makes_refreshHosts false).mono fun op hop => ?_).bind fun _ =>
    (makes_probe.mono fun op hop => ?_).bind fun _ => (makes_ask rfl).bind fun hosts =>
    ((makes_listSlots hosts).mono fun op hop => ?_).bind fun _ => (makes_ask rfl).bind fun _ =>
    ((makes_returnHosts cfg).mono fun op hop => ?_).bind fun _ => ?_
  · cases op <;> first | rfl | cases hop
  · cases op <;> first | rfl | cases hop
  · unfold Call.maintains
    split <;> simp [hop]
  · cases op <;> first | rfl | cases hop
  · cases op <;> first | rfl | cases hop
  · split
    · exact (makes_ask rfl).bind fun _ => all_pure _
    · exact all_pure _

theorem makes_create (key image : String) : Makes Call.creates (create key image) :=
  (makes_ask rfl).bind fun _ => makes_ask rfl

theorem makes_start (id : String) : Makes Call.starts (start id) := (makes_ask rfl).bind fun _ => makes_ask rfl

end Pool

end RunnerYard
