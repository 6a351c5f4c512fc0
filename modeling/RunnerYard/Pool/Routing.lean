import RunnerYard.Pool.Placement

/-!
# Routing

How `placement.go` finds its way: a launch falls through the tiers that are full and stops at the first that is not, an inventory joins the tiers, and a worker is destroyed by the tier that its ID names.
-/

namespace RunnerYard

open Interaction Prog

theorem Err.asPartialLaunch_mapPartialLaunch (f : Worker → Worker) (e : Err) :
    (e.mapPartialLaunch f).asPartialLaunch = e.asPartialLaunch.map f := by
  induction e with
  | join first second ihfirst ihsecond =>
    simp only [asPartialLaunch] at ihfirst ihsecond
    unfold mapPartialLaunch
    split
    · rename_i h
      obtain ⟨worker, hworker⟩ := Option.isSome_iff_exists.mp h
      rw [asPartialLaunch] at hworker
      simp [asPartialLaunch, nodes, partialLaunch?, ihfirst, hworker, List.findSome?_cons]
    · rename_i h
      have hnone : first.nodes.findSome? partialLaunch? = none := by simpa [asPartialLaunch] using h
      simp [asPartialLaunch, nodes, partialLaunch?, ihsecond, hnone, List.findSome?_cons]
  | _ => simp_all [asPartialLaunch, mapPartialLaunch, nodes, partialLaunch?, List.findSome?_cons]

namespace Placement

/-- The worker that a launch leaves behind, as its result names it. -/
def started : Except Err Worker → Option Worker
  | .ok worker => some worker
  | .error err => err.asPartialLaunch

/-- `Inventory`, by what the tiers return. The first tier in order that fails makes it fail. -/
def inventoryOf (answers : Tier → Except Err (List Worker)) : List Tier → Except Err (List Worker)
  | [] => .ok []
  | tier :: rest =>
    match answers tier with
    | .error failure =>
      let err := Err.wrap ("placement tier " ++ tier.name) failure
      .error (if failure.isTransient then .transient err else err)
    | .ok workers => (inventoryOf answers rest).map (workers.map tier.own ++ ·)

variable (p : Placement)

def inventory (answers : Tier → Except Err (List Worker)) : Except Err (List Worker) := inventoryOf answers p.tiers

/-- `Destroy`, by what the tiers' own `Destroy` returns. -/
def destroy (compute : Tier → String → Option Err) (workerID : String) : Option Err :=
  if workerID = "" then none
  else match (Text.cut ':' workerID).bind fun (name, id) => if id = "" then none else (p.byName name).map (·, id) with
    | some (tier, id) => compute tier id
    | none => some (.text ("worker id " ++ Text.quote workerID ++ " names no placement tier"))

variable {p : Placement} {tier : Tier} {lease : Lease} {answers : Tier → Except Err (List Worker)}

theorem cut_workerID (h : tier ∈ p.tiers) (id : String) : Text.cut ':' (tier.workerID id) = some (tier.name, id) :=
  Text.cut_append (separator_of_validName (p.valid tier h)) id

theorem destroy_workerID (h : tier ∈ p.tiers) {id : String} (hid : id ≠ "") (compute : Tier → String → Option Err) :
    p.destroy compute (tier.workerID id) = compute tier id := by
  have hcut := cut_workerID h id
  have hne : tier.workerID id ≠ "" := by
    intro heq
    rw [heq] at hcut
    exact absurd hcut (by simp [Text.cut])
  rw [destroy, if_neg hne, hcut]
  simp [byName_of_mem h, hid]

/-- The tier refused the lease as full with these calls, and left nothing behind. -/
def Refused (lease : Lease) (tier : Tier) (calls : List (Event Call.Ans)) : Prop :=
  ∃ err, Yields (tier.launch lease true) calls (.error err) ∧ err.isCapacity = true ∧ err.asPartialLaunch = none

/-- The calls are those of the tiers up to one, which all refused the lease as full but the last; and the worker that one names, if it does, the result names. -/
def Falls (lease : Lease) (trace : List (Event Call.Ans)) (result : Except Err Worker) (tiers : List Tier) : Prop :=
  ∃ before tier after refused calls own, tiers = before ++ tier :: after ∧ trace = refused.flatten ++ calls ∧
    List.Forall₂ (Refused lease) before refused ∧ Yields (tier.launch lease true) calls own ∧
    ∀ worker, started own = some worker → worker.id ≠ "" → started result = some (tier.own worker)

theorem falls_launchFrom {tiers : List Tier} (hne : tiers ≠ []) {trace : List (Event Call.Ans)} {result : Except Err Worker}
    (h : Yields (launchFrom lease tiers) trace result) : Falls lease trace result tiers := by
  induction tiers generalizing trace with
  | nil => exact absurd rfl hne
  | cons tier rest ih =>
    obtain ⟨front, back, own, rfl, hfront, hback⟩ := yields_bind_iff.mp h
    -- the cases in which this tier is the last to be asked
    have hlast : back = [] → (∀ worker, started own = some worker → worker.id ≠ "" → started result = some (tier.own worker)) →
        Falls lease (front ++ back) result (tier :: rest) := by
      rintro rfl hown
      exact ⟨[], tier, rest, [], front, own, rfl, by simp, .nil, hfront, hown⟩
    cases own with
    | ok worker =>
      obtain ⟨rfl, rfl⟩ := yields_pure_iff.mp hback
      exact hlast rfl fun other hother _ => by rw [← Option.some.inj hother]; rfl
    | error err =>
      dsimp only at hback
      split at hback
      · obtain ⟨rfl, rfl⟩ := yields_pure_iff.mp hback
        refine hlast rfl fun worker hworker hid => ?_
        rw [started] at hworker ⊢
        rw [Tier.ownPartial, Err.asPartialLaunch_mapPartialLaunch, hworker, Option.map_some, if_neg hid]
      · rename_i hpartial
        have hnone : err.asPartialLaunch = none := by simpa using hpartial
        split at hback
        · rename_i hfull
          simp only [Bool.and_eq_true, Bool.not_eq_true', List.isEmpty_eq_false_iff] at hfull
          obtain ⟨before, last, after, refused, calls, own, rfl, rfl, hrefused, hown⟩ := ih hfull.2 hback
          exact ⟨tier :: before, last, after, front :: refused, calls, own, rfl, by simp, .cons ⟨err, hfront, hfull.1, hnone⟩ hrefused, hown⟩
        · obtain ⟨rfl, rfl⟩ := yields_pure_iff.mp hback
          exact hlast rfl fun worker hworker _ => by simp [started, hnone] at hworker

theorem launching_ne_nil (p : Placement) : p.tiers.filter (!·.drain) ≠ [] := by
  obtain ⟨tier, htier, hdrain⟩ := List.any_eq_true.mp p.launching
  exact List.ne_nil_of_mem (List.mem_filter.mpr ⟨htier, hdrain⟩)

def listed (answers : Tier → Except Err (List Worker)) (tier : Tier) : List Worker := (answers tier).toOption.getD []

theorem inventoryOf_ok {tiers : List Tier} {workers : List Worker} (h : inventoryOf answers tiers = .ok workers) :
    (∀ tier ∈ tiers, answers tier = .ok (listed answers tier)) ∧ workers = tiers.flatMap fun tier => (listed answers tier).map tier.own := by
  induction tiers generalizing workers with
  | nil => simpa [inventoryOf] using h.symm
  | cons tier rest ih =>
    unfold inventoryOf at h
    split at h
    · cases h
    · rename_i own hown
      cases hrest : inventoryOf answers rest with
      | error err => simp [hrest, Except.map] at h
      | ok others =>
        obtain ⟨hall, rfl⟩ := ih hrest
        simp only [hrest, Except.map, Except.ok.injEq] at h
        have hlisted : listed answers tier = own := by rw [listed, hown]; rfl
        refine ⟨List.forall_mem_cons.mpr ⟨by rw [hlisted, hown], hall⟩, ?_⟩
        rw [← h, List.flatMap_cons, hlisted]

theorem inventoryOf_error {tiers : List Tier} {err : Err} (h : inventoryOf answers tiers = .error err) :
    ∃ tier ∈ tiers, ∃ failure, answers tier = .error failure ∧ err.isTransient = failure.isTransient := by
  induction tiers with
  | nil => cases h
  | cons tier rest ih =>
    unfold inventoryOf at h
    split at h
    · rename_i failure hfailure
      refine ⟨tier, List.mem_cons_self, failure, hfailure, ?_⟩
      simp only [Except.error.injEq] at h
      rw [← h]
      split <;> simp_all [Err.isTransient, Err.nodes, Err.transient?]
    · cases hrest : inventoryOf answers rest with
      | ok others => simp [hrest, Except.map] at h
      | error failure =>
        simp only [hrest, Except.map, Except.error.injEq] at h
        obtain ⟨other, hother, hfailed⟩ := ih (h ▸ hrest)
        exact ⟨other, List.mem_cons_of_mem _ hother, hfailed⟩

theorem nodup_workerIDs (p : Placement) {listed : Tier → List Worker} (h : ∀ tier ∈ p.tiers, ((listed tier).map Worker.id).Nodup) :
    ((p.tiers.flatMap fun tier => (listed tier).map tier.own).map Worker.id).Nodup := by
  have hpairs : p.tiers.Pairwise fun a b => a.name ≠ b.name := List.pairwise_map.mp p.distinct
  rw [List.map_flatMap, List.nodup_flatMap]
  constructor
  · intro tier htier
    have hids : ((listed tier).map tier.own).map Worker.id = ((listed tier).map Worker.id).map tier.workerID := by simp [Tier.own]
    rw [hids]
    refine (h tier htier).map fun id id' heq => ?_
    have hcut := cut_workerID htier id
    rw [heq, cut_workerID htier id'] at hcut
    simpa using hcut.symm
  · refine hpairs.imp_of_mem fun {a b} ha hb hne => ?_
    simp only [Function.onFun, List.disjoint_left, List.mem_map]
    rintro _ ⟨_, ⟨own, -, rfl⟩, rfl⟩ ⟨_, ⟨other, -, rfl⟩, heq⟩
    have hcut := cut_workerID ha own.id
    rw [show a.workerID own.id = b.workerID other.id from heq.symm, cut_workerID hb] at hcut
    simp only [Option.some.injEq, Prod.mk.injEq] at hcut
    exact hne hcut.1.symm

/-- An inventory that succeeds lists the workers of all tiers, no two under one ID if no tier does that, and each is destroyed by the tier that listed it. One that fails is transient exactly if a tier's failure is, so no partial list is ever taken for the fleet. -/
theorem inventory_is_routed (p : Placement) (answers : Tier → Except Err (List Worker)) (compute : Tier → String → Option Err) :
    match p.inventory answers with
    | .ok workers => (∀ tier ∈ p.tiers, answers tier = .ok (listed answers tier)) ∧
        (∀ worker, worker ∈ workers ↔ ∃ tier ∈ p.tiers, ∃ own ∈ listed answers tier, worker = tier.own own) ∧
        (∀ tier ∈ p.tiers, ∀ own ∈ listed answers tier, own.id ≠ "" → p.destroy compute (tier.own own).id = compute tier own.id) ∧
        ((∀ tier ∈ p.tiers, ((listed answers tier).map Worker.id).Nodup) → (workers.map Worker.id).Nodup)
    | .error err => ∃ tier ∈ p.tiers, ∃ failure, answers tier = .error failure ∧ err.isTransient = failure.isTransient := by
  split
  · rename_i workers h
    obtain ⟨hlisted, rfl⟩ := inventoryOf_ok h
    refine ⟨hlisted, fun worker => ?_, fun tier htier own _ hid => destroy_workerID htier hid compute, p.nodup_workerIDs⟩
    simp [eq_comm]
  · rename_i err h
    exact inventoryOf_error h

namespace Demo

def twoTiers : Placement where
  tiers := [{ name := "hetzner", compute := .machines }, { name := "fly", compute := .machines }]
  valid := by decide
  distinct := by decide
  launching := by decide

/-- Hetzner is full, and Fly starts a machine. -/
def fallsThrough (lease : Lease) : List (Event Call.Ans) :=
  [⟨.launch "hetzner" lease, .error (.capacity "quota" 0 (.text "limit"))⟩, ⟨.launch "fly" lease, .ok { id := "m", leaseID := lease.id, runnerName := lease.runnerName }⟩]

theorem yields_fallsThrough (lease : Lease) :
    Yields (twoTiers.launch lease) (fallsThrough lease) (.ok { id := "fly:m", leaseID := lease.id, runnerName := lease.runnerName }) :=
  .call (.call (.pure _))

end Demo

end Placement

end RunnerYard
