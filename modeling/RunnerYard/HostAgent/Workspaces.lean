import RunnerYard.HostAgent.Storage
import RunnerYard.Interaction.Runs

/-!
# The work directory of a job

`start` and `remove` of `hostagent/agent.go` as the calls they make, one step each, so that a command may fail at any of them and the commands of other slots may come in between. A bind mount holds the directory that its path names when the container is created, and keeps it through a rename: directories are numbered, and the work root maps names to numbers.
-/

namespace RunnerYard.HostAgent

open Interaction

def workspaceTarget : String := "/home/runner/_work"

def atOrBelow (path root : String) : Bool := path = root || hasPrefix path (root ++ "/")

/-- What backs a mount: a directory of the work root, or a Docker volume. -/
inductive Store where
  | directory (number : Nat)
  | volume (name : String)
deriving DecidableEq, Repr

structure Mount where
  target : String
  store : Store
deriving DecidableEq, Repr

/-- `start` is the number of the start command that made the container; a start makes at most one. -/
structure Container where
  start : Nat
  mounts : List Mount
deriving DecidableEq, Repr

/-- Where the command that holds a slot's lock stands: none does; a start has found no container; it has made the work directory; or a removal, or the end of a failed start, is under way. -/
inductive Stage where
  | idle
  | preparing (leaseID : String) (start : Nat)
  | prepared (leaseID : String) (start : Nat)
  | removing
deriving DecidableEq, Repr

/-- `writers` are the containers, by their start, that wrote a file to a store. -/
structure Host where
  stage : Nat → Stage := fun _ => .idle
  containers : Nat → Option Container := fun _ => none
  directories : String → Option Nat := fun _ => none
  writers : Store → List Nat := fun _ => []
  starts : Nat := 0

inductive Label where
  | start (slot : Nat) (leaseID : String)
  | dropVolumes (slot : Nat)
  | rename (slot : Nat) (name text : String)
  | mkdir (slot : Nat)
  | run (slot : Nat) (ok : Bool)
  | remove (slot : Nat)
  | rm (slot : Nat)
  | fail (slot : Nat)
  | write (slot i : Nat)
  | purge (name : String)

variable (cfg : Config)

def mounts (slot directory : Nat) : List Mount :=
  (cfg.volumes slot).map (fun v => { target := v.target, store := .volume v.name }) ++ [{ target := workspaceTarget, store := .directory directory }]

def setStage (h : Host) (slot : Nat) (stage : Stage) : Host := { h with stage := Function.update h.stage slot stage }

def step : Label → Host → Option Host
  | .start slot leaseID, h =>
    if h.stage slot = .idle ∧ h.containers slot = none ∧ safeLabelValue leaseID then
      some { setStage h slot (.preparing leaseID h.starts) with starts := h.starts + 1 }
    else none
  | .dropVolumes slot, h =>
    match h.stage slot with
    | .preparing _ _ => some { h with writers := fun s => if ∃ v ∈ cfg.volumes slot, s = .volume v.name then [] else h.writers s }
    | _ => none
  | .rename slot name text, h =>
    match h.stage slot with
    | .preparing _ _ | .removing =>
      if hasPrefix name (slotWorkspacePrefix slot) then
        some { h with directories := Function.update (Function.update h.directories (retiredWorkspacePrefix ++ name ++ "-" ++ text) (h.directories name)) name none }
      else none
    | _ => none
  | .mkdir slot, h =>
    match h.stage slot with
    | .preparing leaseID start =>
      if h.directories (slotWorkspace slot leaseID) = none then
        some
          { setStage h slot (.prepared leaseID start) with
            directories := Function.update h.directories (slotWorkspace slot leaseID) (some start)
            writers := Function.update h.writers (.directory start) [] }
      else none
    | _ => none
  | .run slot ok, h =>
    match h.stage slot with
    | .prepared leaseID start =>
      (h.directories (slotWorkspace slot leaseID)).map fun directory =>
        { setStage h slot (if ok then .idle else .removing) with containers := Function.update h.containers slot (some { start, mounts := mounts cfg slot directory }) }
    | _ => none
  | .remove slot, h => if h.stage slot = .idle then some (setStage h slot .removing) else none
  | .rm slot, h => if h.stage slot = .removing then some { h with containers := Function.update h.containers slot none } else none
  | .fail slot, h => some (setStage h slot .idle)
  | .write slot i, h =>
    (h.containers slot).bind fun c => c.mounts[i]?.map fun m => { h with writers := Function.update h.writers m.store (h.writers m.store ++ [c.start]) }
  | .purge name, h =>
    if hasPrefix name retiredWorkspacePrefix then some { h with directories := Function.update h.directories name none } else none

/-- What a container sees at or below its work directory is in the directory that its own start made, and was written by the container itself. -/
def Isolated (h : Host) : Prop :=
  ∀ slot c, h.containers slot = some c → ∀ m ∈ c.mounts, atOrBelow m.target workspaceTarget = true →
    m.store = .directory c.start ∧ ∀ n ∈ h.writers m.store, n = c.start

/-- The directory of a start is written to only by its container, and stays under its name until it is mounted. -/
structure Separate (h : Host) : Prop where
  writers : ∀ d, ∀ n ∈ h.writers (.directory d), n = d
  prepared : ∀ slot leaseID start, h.stage slot = .prepared leaseID start → h.directories (slotWorkspace slot leaseID) = some start
  mounts : ∀ slot c, h.containers slot = some c → c.mounts = mounts cfg slot c.start

variable {cfg} {h h' : Host}

theorem Separate.staged (hs : Separate cfg h) (slot : Nat) {stage : Stage} (hstage : ∀ leaseID start, stage ≠ .prepared leaseID start) :
    Separate cfg (setStage h slot stage) := by
  refine ⟨hs.writers, ?_, hs.mounts⟩
  intro other leaseID start hother
  by_cases heq : other = slot
  · simp only [setStage, heq, Function.update_self] at hother
    exact absurd hother (hstage leaseID start)
  · simp only [setStage, Function.update_of_ne heq] at hother
    exact hs.prepared other leaseID start hother

theorem Separate.renamed (hs : Separate cfg h) {directories : String → Option Nat}
    (hsame : ∀ slot leaseID start, h.stage slot = .prepared leaseID start → directories (slotWorkspace slot leaseID) = h.directories (slotWorkspace slot leaseID)) :
    Separate cfg { h with directories } :=
  ⟨hs.writers, fun slot leaseID start hstage => (hsame slot leaseID start hstage).trans (hs.prepared slot leaseID start hstage), hs.mounts⟩

theorem slotWorkspace_ne_retired {slot : Nat} {leaseID name : String} (hname : hasPrefix name retiredWorkspacePrefix = true) : slotWorkspace slot leaseID ≠ name := by
  rintro rfl
  rw [not_retired (slotWorkspace_hasPrefix slot leaseID)] at hname
  exact absurd hname (by decide)

theorem Separate.step {label : Label} (hs : Separate cfg h) (hstep : step cfg label h = some h') : Separate cfg h' := by
  cases label with
  | start slot leaseID =>
    simp only [HostAgent.step] at hstep
    split at hstep
    · obtain rfl := Option.some.inj hstep
      have hset := hs.staged slot (show ∀ other k, Stage.preparing leaseID h.starts ≠ .prepared other k by simp)
      exact ⟨hset.writers, hset.prepared, hset.mounts⟩
    · simp at hstep
  | dropVolumes slot =>
    simp only [HostAgent.step] at hstep
    split at hstep
    · obtain rfl := Option.some.inj hstep
      refine ⟨fun d n hn => hs.writers d n ?_, hs.prepared, hs.mounts⟩
      simpa using hn
    · simp at hstep
  | rename slot name text =>
    have hrenamed : (∀ leaseID start, h.stage slot ≠ .prepared leaseID start) → hasPrefix name (slotWorkspacePrefix slot) = true →
        Separate cfg { h with directories := Function.update (Function.update h.directories (retiredWorkspacePrefix ++ name ++ "-" ++ text) (h.directories name)) name none } := by
      intro hstage hname
      refine hs.renamed fun other leaseID start hother => ?_
      have hne : slotWorkspace other leaseID ≠ name := by
        rintro rfl
        exact hstage leaseID start (slot_of_hasPrefix hname (slotWorkspace_hasPrefix other leaseID) ▸ hother)
      have hretired : hasPrefix (retiredWorkspacePrefix ++ name ++ "-" ++ text) retiredWorkspacePrefix = true := by
        simp [hasPrefix_iff, String.toList_append]
      rw [Function.update_of_ne hne, Function.update_of_ne (slotWorkspace_ne_retired hretired)]
    simp only [HostAgent.step] at hstep
    split at hstep
    · rename_i hstage
      split at hstep
      · exact Option.some.inj hstep ▸ hrenamed (by simp [hstage]) ‹_›
      · simp at hstep
    · rename_i hstage
      split at hstep
      · exact Option.some.inj hstep ▸ hrenamed (by simp [hstage]) ‹_›
      · simp at hstep
    · simp at hstep
  | mkdir slot =>
    simp only [HostAgent.step] at hstep
    split at hstep
    · rename_i leaseID start hstage
      split at hstep
      · obtain rfl := Option.some.inj hstep
        refine ⟨?_, ?_, hs.mounts⟩
        · intro d n hn
          by_cases hd : d = start
          · simp [hd] at hn
          · exact hs.writers d n (by simpa [Function.update_of_ne (show Store.directory d ≠ .directory start by simpa using hd)] using hn)
        · intro other leaseID' start' hother
          by_cases heq : other = slot
          · subst heq
            simp only [setStage, Function.update_self, Stage.prepared.injEq] at hother
            simp [← hother.1, ← hother.2]
          · simp only [setStage, Function.update_of_ne heq] at hother
            have hne : slotWorkspace other leaseID' ≠ slotWorkspace slot leaseID := fun hname =>
              heq (slot_of_hasPrefix (slotWorkspace_hasPrefix other leaseID') (hname ▸ slotWorkspace_hasPrefix slot leaseID))
            simpa [Function.update_of_ne hne] using hs.prepared other leaseID' start' hother
      · simp at hstep
    · simp at hstep
  | run slot ok =>
    simp only [HostAgent.step] at hstep
    split at hstep
    · rename_i leaseID start hstage
      rw [hs.prepared slot leaseID start hstage, Option.map_some] at hstep
      obtain rfl := Option.some.inj hstep
      have hset : Separate cfg (setStage h slot (if ok then .idle else .removing)) := hs.staged slot (by cases ok <;> simp)
      refine ⟨hset.writers, hset.prepared, ?_⟩
      intro other c hc
      by_cases heq : other = slot
      · subst heq
        simp only [Function.update_self, Option.some.injEq] at hc
        rw [← hc]
      · exact hs.mounts other c (by simpa [Function.update_of_ne heq] using hc)
    · simp at hstep
  | remove slot =>
    simp only [HostAgent.step] at hstep
    split at hstep
    · obtain rfl := Option.some.inj hstep
      exact hs.staged slot (by simp)
    · simp at hstep
  | rm slot =>
    simp only [HostAgent.step] at hstep
    split at hstep
    · obtain rfl := Option.some.inj hstep
      refine ⟨hs.writers, hs.prepared, ?_⟩
      intro other c hc
      by_cases heq : other = slot
      · simp [heq] at hc
      · exact hs.mounts other c (by simpa [Function.update_of_ne heq] using hc)
    · simp at hstep
  | fail slot =>
    obtain rfl := Option.some.inj hstep
    exact hs.staged slot (by simp)
  | write slot i =>
    obtain ⟨c, hc, hwrite⟩ := Option.bind_eq_some_iff.mp hstep
    obtain ⟨m, hm, rfl⟩ := Option.map_eq_some_iff.mp hwrite
    refine ⟨?_, hs.prepared, hs.mounts⟩
    intro d n hn
    by_cases hd : Store.directory d = m.store
    · -- The only directory that a container has mounted is the one its start made.
      have hmem := List.mem_of_getElem? hm
      simp only [hs.mounts slot c hc, HostAgent.mounts, List.mem_append, List.mem_map, List.mem_singleton] at hmem
      rcases hmem with ⟨v, -, rfl⟩ | rfl
      · simp at hd
      · obtain rfl : d = c.start := by simpa using hd
        simp only [Function.update_self, List.mem_append, List.mem_singleton] at hn
        exact hn.elim (hs.writers c.start n) id
    · exact hs.writers d n (by simpa [Function.update_of_ne hd] using hn)
  | purge name =>
    simp only [HostAgent.step] at hstep
    split at hstep
    · rename_i hname
      obtain rfl := Option.some.inj hstep
      exact hs.renamed fun slot leaseID start _ => Function.update_of_ne (slotWorkspace_ne_retired hname) _ _
    · simp at hstep

/-- **Workspaces.** If no cache lies below the work directory, then in every sequence of starts and removals, failing at any call, no container sees a file at or below its work directory that it has not written. -/
theorem isolated_of_caches (hvalid : cfg.validate = .ok ()) (hcaches : ∀ path ∈ cfg.caches, hasPrefix path (workspaceTarget ++ "/") = false)
    (hreach : Reach (step cfg) (fun _ _ => True) {} h) : Isolated h := by
  have hs : Separate cfg h := hreach.invariant ⟨by simp, by simp, by simp⟩ fun hs _ hstep => hs.step hstep
  intro slot c hc m hm hbelow
  rw [hs.mounts slot c hc, mounts, List.mem_append, List.mem_singleton] at hm
  rcases hm with hm | rfl
  · exfalso
    obtain ⟨v, hv, rfl⟩ := List.mem_map.mp hm
    rcases List.mem_cons.mp hv with rfl | hv
    · exact absurd hbelow (show ¬atOrBelow "/var/lib/docker" workspaceTarget = true by decide)
    · obtain ⟨path, hpath, rfl⟩ := List.mem_map.mp hv
      have hexact : path ≠ workspaceTarget := by
        rintro rfl
        exact absurd ((nodup_of_checkCaches (checkCaches_of_validate hvalid)).2 _ hpath).1 (by decide)
      simp [atOrBelow, hexact, hcaches path hpath] at hbelow
  · exact ⟨rfl, hs.writers c.start⟩

/-- A job writes to its first cache and to its work directory (mounts 1 and 2), its slot is cleared, and the next job starts there. -/
def twoJobs : List Label :=
  [.start 0 "a", .mkdir 0, .run 0 true, .write 0 1, .write 0 2, .remove 0, .rm 0, .rename 0 "slot-0-a" "x", .fail 0, .start 0 "b", .mkdir 0, .run 0 true]

theorem isolated_of_caches_npm :
    let cfg : Config := { slots := 1, image := "runner", caches := ["/home/runner/.npm"] }
    (∃ h, replay (step cfg) twoJobs {} = some h ∧ h.writers (.volume "runneryard-slot-0-cache-home-runner-.npm") = [0] ∧ h.writers (.directory 1) = []) ∧
      ∀ h, replay (step cfg) twoJobs {} = some h → Isolated h :=
  ⟨⟨_, rfl, by decide, by decide⟩, fun _ hrun => isolated_of_caches (by decide) (by decide) (Reach.start.of_replay (by simp [twoJobs, Obeys]) hrun)⟩

/-- A cache below the work directory is accepted, and shows the second job what the first one wrote. -/
theorem isolated_fails :
    let cfg : Config := { slots := 1, image := "runner", caches := ["/home/runner/_work/repo"] }
    cfg.validate = .ok () ∧ ∃ h, replay (step cfg) twoJobs {} = some h ∧ (h.containers 0).map Container.start = some 1 ∧
      h.writers (.volume "runneryard-slot-0-cache-home-runner-_work-repo") = [0] ∧ ¬Isolated h := by
  refine ⟨by decide, _, rfl, by decide, by decide, fun hisolated => ?_⟩
  have hstore := (hisolated 0 _ rfl { target := "/home/runner/_work/repo", store := .volume "runneryard-slot-0-cache-home-runner-_work-repo" } (by decide) (by decide)).1
  cases hstore

end RunnerYard.HostAgent
