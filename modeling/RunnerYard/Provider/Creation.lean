import RunnerYard.Controller.Outages

/-!
# One machine for a lease

`Launch` of the Fly adapter and `createServer` of the Hetzner adapter. A request to create a machine is not idempotent, and one that fails may have created the machine all the same, so both repeat it only after a lookup that finds no machine of the lease. The loop is the same in both, over what `Adapter` tells apart.
-/

namespace RunnerYard

namespace Provider

def withLeaseProof (worker : Worker) (lease : Lease) : Worker :=
  { worker with
    leaseID := if worker.leaseID = "" then lease.id else worker.leaseID
    runnerName := if worker.runnerName = "" then lease.runnerName else worker.runnerName
    runnerID := if worker.runnerID = 0 then lease.runnerID else worker.runnerID
    runnerScaleSetID := if worker.runnerScaleSetID = 0 then lease.runnerScaleSetID else worker.runnerScaleSetID }

/-- An adapter of machines `β`, whose lookups meet `ρ`. A lookup that succeeds has `listed` the machines there are, of which it takes those that it `selects`. -/
structure Adapter (ρ β α : Type) where
  name : String
  idName : String
  attempts : Int
  named : β → Bool
  selects : String → β → Bool
  listed : String → ρ → Except Err Unit
  toWorker : β → Worker
  done : Lease → β → α
  adopts : Option (Worker → α)

/-- What an attempt meets: the limiter, the machine that the request has created, the end of the request with what could be read of the response, the lookup, and the pause. -/
structure Creation (ρ β : Type) where
  wait : Option Err := none
  made : Option β
  created : β
  failure : Option Err := none
  lookup : ρ
  sleep : Option Err := none

namespace Adapter

variable {ρ β α : Type} (a : Adapter ρ β α) (lease : Lease)

def findByLease (lookup : ρ) (machines : List β) : Except Err (Option Worker) :=
  (a.listed lease.id lookup).map fun _ => ((machines.filter (a.selects lease.id)).map a.toWorker).find? (·.leaseID = lease.id)

/-- The loop from the given attempt on, with the machines of the provider. -/
def createFrom (attempts : Nat → Creation ρ β) (remaining attempt : Nat) (machines : List β) : List β × Except Err α :=
  let c := attempts attempt
  let create := "create " ++ a.name ++ " worker " ++ lease.runnerName
  match c.wait with
  | some ended => (machines, .error ended)
  | none =>
    let machines := machines ++ c.made.toList
    match c.failure with
    | none => (machines, if a.named c.created then .ok (a.done lease c.created) else .error (.text (create ++ ": response did not include a " ++ a.idName)))
    | some err =>
      if a.named c.created then (machines, .error (.partialLaunch (withLeaseProof (a.toWorker c.created) lease) err))
      else if !err.isTransient then (machines, .error (.wrap create err))
      else match a.findByLease lease c.lookup machines with
        | .error lookupErr =>
          (machines, .error (.join (.wrap create err) (.wrap ("confirm " ++ a.name ++ " worker absence before retry") lookupErr)))
        | .ok (some existing) =>
          (machines, match a.adopts with
            | some adopt => .ok (adopt (withLeaseProof existing lease))
            | none => .error (.partialLaunch (withLeaseProof existing lease) (.wrap create err)))
        | .ok none =>
          match remaining with
          | 0 => (machines, .error (.wrap create err))
          | remaining + 1 =>
            match c.sleep with
            | some ended => (machines, .error (.join (.wrap create err) ended))
            | none => createFrom attempts remaining (attempt + 1) machines

def create (attempts : Nat → Creation ρ β) (machines : List β) : List β × Except Err α :=
  a.createFrom lease attempts (effectiveAttempts a.attempts - 1) 1 machines

/-- The machine is labelled as the request for the lease says. -/
def Carries (m : β) : Prop := a.selects lease.id m = true ∧ (a.toWorker m).leaseID = lease.id

/-- What a creation leaves behind: the machines of before and at most one more. After a transient error that names no machine there is none, or a lookup has failed and the error says so. -/
structure Single (attempts : Nat → Creation ρ β) (machines : List β) (r : List β × Except Err α) : Prop where
  once : ∃ made : Option β, r.1 = machines ++ made.toList
  absent : ∀ e, r.2 = .error e → e.asPartialLaunch = none → e.isTransient = true → r.1 = machines ∨
    ∃ k, ∃ failure ∈ e.nodes, a.listed lease.id (attempts k).lookup = .error failure

variable {a lease} {attempts : Nat → Creation ρ β} {machines : List β}

/-- A lookup that finds nothing shows that the request before it has created nothing. -/
theorem append_made {lookup : ρ} {made : Option β} (hmade : ∀ m, made = some m → a.Carries lease m)
    (h : a.findByLease lease lookup (machines ++ made.toList) = .ok none) : machines ++ made.toList = machines := by
  cases made with
  | none => exact List.append_nil _
  | some m =>
    obtain ⟨hselects, hlease⟩ := hmade m rfl
    unfold findByLease at h
    cases hlisted : a.listed lease.id lookup with
    | error failure => simp [hlisted, Except.map] at h
    | ok _ =>
      simp only [hlisted, Except.map, Except.ok.injEq, List.find?_eq_none] at h
      exact absurd hlease (by simpa using h (a.toWorker m) (by simp [hselects]))

theorem listed_of_error {lookup : ρ} {failure : Err} (h : a.findByLease lease lookup machines = .error failure) :
    a.listed lease.id lookup = .error failure := by
  unfold findByLease at h
  cases hlisted : a.listed lease.id lookup <;> simp_all [Except.map]

theorem mem_nodes_self (e : Err) : e ∈ e.nodes := by
  cases e <;> simp [Err.nodes]

theorem single_createFrom (hmade : ∀ k m, (attempts k).made = some m → a.Carries lease m) (remaining attempt : Nat) :
    a.Single lease attempts machines (a.createFrom lease attempts remaining attempt machines) := by
  fun_induction a.createFrom lease attempts remaining attempt machines with
  | case1 => exact ⟨⟨none, by simp⟩, fun _ _ _ _ => Or.inl rfl⟩
  | case2 =>
    refine ⟨⟨_, rfl⟩, fun e he _ htransient => ?_⟩
    split_ifs at he
    cases he
    cases htransient
  | case3 =>
    refine ⟨⟨_, rfl⟩, fun e he hunnamed _ => ?_⟩
    cases he
    cases hunnamed
  | case4 _ _ _ _ _ _ _ _ _ _ hpermanent =>
    refine ⟨⟨_, rfl⟩, fun e he _ htransient => ?_⟩
    cases he
    rw [Err.isTransient_wrap] at htransient
    simp [htransient] at hpermanent
  | case5 _ attempt _ _ _ _ _ _ _ _ _ lookupErr hfind =>
    refine ⟨⟨_, rfl⟩, fun e he _ _ => Or.inr ⟨attempt, lookupErr, ?_, listed_of_error hfind⟩⟩
    cases he
    simp [Err.nodes, mem_nodes_self]
  | case6 =>
    refine ⟨⟨_, rfl⟩, fun e he hunnamed _ => ?_⟩
    split at he
    · cases he
    · cases he
      cases hunnamed
  | case7 _ _ _ _ _ _ _ _ _ _ hfind => exact ⟨⟨_, rfl⟩, fun _ _ _ _ => Or.inl (append_made (hmade _) hfind)⟩
  | case8 _ _ _ _ _ _ _ _ _ _ hfind => exact ⟨⟨_, rfl⟩, fun _ _ _ _ => Or.inl (append_made (hmade _) hfind)⟩
  | case9 _ machines _ _ machines' _ _ _ _ hfind _ _ ih =>
    rwa [show machines' = machines from append_made (hmade _) hfind] at ih ⊢

end Adapter

end Provider

open Provider

/-- `Launch` of the Fly adapter, but for the request it builds. -/
def Fly.adapter (controllerID : String) (attempts : Int) : Adapter (Nat → Attempt Unit) Fly.Machine Worker where
  name := "Fly"
  idName := "machine id"
  attempts
  named m := m.id ≠ ""
  selects _ m := m.label managedByKey = "true" ∧ m.label controllerIDKey = controllerID
  listed _ requests := (retryDo attempts requests).2.mapError (.wrap "list Fly Machines")
  toWorker
  done lease m := withLeaseProof (toWorker m) lease
  adopts := some id

namespace Hetzner

open Fly (managedByKey controllerIDKey leaseIDKey runnerNameKey runnerIDKey runnerScaleSetIDKey)

def poolHostKey : String := "runneryard-pool-host"

/-- A server, as far as the adapter reads it. -/
structure Server where
  id : Int
  status : String
  createdAt : Int
  labels : List (String × String)

def Server.label (item : Server) (key : String) : String := (item.labels.lookup key).getD ""

def toWorker (item : Server) : Worker where
  id := Text.itoa item.id
  leaseID := item.label leaseIDKey
  runnerName := item.label runnerNameKey
  runnerID := (Text.parseInt (item.label runnerIDKey)).1
  runnerScaleSetID := (Text.parseInt (item.label runnerScaleSetIDKey)).1
  state := item.status
  createdAt := item.createdAt

/-- `createServer`. A lookup reads page after page, each with retries of its own. -/
def adapter (controllerID : String) (attempts : Int) : Adapter (List (Nat → Attempt Unit)) Server Server where
  name := "Hetzner"
  idName := "server id"
  attempts
  named m := m.id ≠ 0
  selects leaseID m :=
    m.label managedByKey = "true" ∧ m.label controllerIDKey = controllerID ∧ m.label leaseIDKey = leaseID ∧ m.label poolHostKey = ""
  listed leaseID pages :=
    if Text.startsThen Char.isAlphanum (fun c => c.isAlphanum || c = '.' || c = '_' || c = '-') 62 leaseID then
      pages.forM fun page => (retryDo attempts page).2.mapError (.wrap "list Hetzner servers")
    else .error (.text ("lease id " ++ Text.quote leaseID ++ " is not a valid label value"))
  toWorker
  done _ m := m
  adopts := none

end Hetzner

/-- Whatever the requests of a creation meet, each adapter has one machine at most created for the lease. -/
theorem creates_one_machine (controllerID : String) (policyAttempts : Int) (lease : Lease) :
    (∀ attempts machines, (∀ k m, (attempts k).made = some m → (Fly.adapter controllerID policyAttempts).Carries lease m) →
      (Fly.adapter controllerID policyAttempts).Single lease attempts machines ((Fly.adapter controllerID policyAttempts).create lease attempts machines)) ∧
    ∀ attempts machines, (∀ k m, (attempts k).made = some m → (Hetzner.adapter controllerID policyAttempts).Carries lease m) →
      (Hetzner.adapter controllerID policyAttempts).Single lease attempts machines
        ((Hetzner.adapter controllerID policyAttempts).create lease attempts machines) :=
  ⟨fun _ _ hmade => Adapter.single_createFrom hmade _ _, fun _ _ hmade => Adapter.single_createFrom hmade _ _⟩

/-- The first request is lost. The second one creates the machine, but its response does not arrive. -/
def Demo.lostResponse (k : Nat) : Creation (Nat → Attempt Unit) Fly.Machine where
  made := if k = 2 then some ⟨"9", "created", 0, [(Fly.managedByKey, "true"), (Fly.controllerIDKey, "main"), (Fly.leaseIDKey, "a")]⟩ else none
  created := ⟨"", "", 0, []⟩
  failure := some (.transient .unreachable)
  lookup _ := { operation := .ok () }

theorem creates_one_machine_lostResponse :
    (((Fly.adapter "main" 3).create ⟨"a", "runner-a", 1, 1, "", 0, 0⟩ Demo.lostResponse []).2.map Worker.id).toOption = some "9" ∧
    ∃ made : Option Fly.Machine, ((Fly.adapter "main" 3).create ⟨"a", "runner-a", 1, 1, "", 0, 0⟩ Demo.lostResponse []).1 = [] ++ made.toList := by
  refine ⟨by decide +kernel, ((creates_one_machine "main" 3 ⟨"a", "runner-a", 1, 1, "", 0, 0⟩).1 Demo.lostResponse [] fun k m hm => ?_).once⟩
  simp only [Demo.lostResponse] at hm
  split at hm
  · cases hm
    exact ⟨by decide, by decide⟩
  · cases hm

end RunnerYard
