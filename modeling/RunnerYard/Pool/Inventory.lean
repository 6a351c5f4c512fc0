import RunnerYard.Pool.Sight

/-!
# The pool's inventory is complete

`Inventory` lists the hosts, asks the agents and reads the workers off the answers. If the source and the agents answer exactly, and the answers are used before anything else happens, it returns every container of this controller. The hosts that it does not ask are those that the pool takes for stopped or for its own fresh boots; after a restart the latter is a guess by age, and `restart_hides_worker` is a run in which it is wrong.
-/

namespace RunnerYard

open Interaction Prog

namespace Pool

variable (cfg : Config)

/-- A complete inventory: every container of this controller on a machine that is up, and only slots of this controller; on a host that is asked and up, such a slot is a container there. -/
structure Complete (w : World) (workers : List Worker) : Prop where
  every : ∀ id, ∀ m ∈ w.machines.get id, m.up = true → ∀ c ∈ m.containers.rows, c.slot.controllerID = cfg.controllerID → c.slot.leaseID ≠ "" →
    c.slot.runnerName ≠ "" → ∃ worker ∈ workers, worker.id = workerID id c.slot.index c.slot.leaseID ∧ worker.leaseID = c.slot.leaseID ∧
      worker.runnerName = c.slot.runnerName ∧ worker.runnerID = c.slot.runnerID ∧ worker.runnerScaleSetID = c.slot.runnerScaleSetID
  own : ∀ worker ∈ workers, ∃ h ∈ w.pool.hosts.rows, ∃ slot ∈ h.slots.rows, slot.controllerID = cfg.controllerID ∧
    worker = slotWorker h.id slot.index slot none ∧ (HostFilter.inventory.accepts h = true → ∀ m ∈ w.machines.get h.id, m.up = true →
      ∃ c ∈ m.containers.rows, c.slot.identity = slot.identity)

variable {cfg} {w w' : World} {op : Call}

/-! ### Reading the answers -/

theorem get_applySlots_of_not_mem {now : Int} {results : List (Host × Except Err (List Slot))} {k : String}
    (h : k ∉ results.map (·.1.id)) (p : Pool) : (applySlots now results p).hosts.get k = p.hosts.get k := by
  induction results generalizing p with
  | nil => rfl
  | cons r rest ih =>
    rw [List.map_cons, List.mem_cons, not_or] at h
    obtain ⟨host, answer⟩ := r
    refine (ih h.2 _).trans ?_
    cases answer with
    | error err => rfl
    | ok slots => exact (get_update p host.id _ k).trans (if_neg h.1)

variable {host : Host} {slots : List Slot} {s : System} {t : Job × Prog Call.Ans Outcome}

theorem get_applySlots {now : Int} {results : List (Host × Except Err (List Slot))} (hnodup : (results.map (·.1.id)).Nodup) (p : Pool)
    (hmem : (host, .ok slots) ∈ results) :
    (applySlots now results p).hosts.get host.id = (p.hosts.get host.id).map fun h => (relist now slots h).withID h.id := by
  induction results generalizing p with
  | nil => exact absurd hmem List.not_mem_nil
  | cons r rest ih =>
    obtain ⟨hfresh, hrest⟩ := List.nodup_cons.mp hnodup
    rcases List.mem_cons.mp hmem with rfl | hlater
    · refine (get_applySlots_of_not_mem hfresh _).trans ?_
      exact (get_update p host.id _ host.id).trans (if_pos rfl)
    · have hne : host.id ≠ r.1.id := fun heq => hfresh (List.mem_map.mpr ⟨_, hlater, heq⟩)
      obtain ⟨other, answer⟩ := r
      refine (ih hrest _ hlater).trans ?_
      cases answer with
      | error err => rfl
      | ok found =>
        show ((p.update other.id (relist now found)).hosts.get host.id).map _ = _
        rw [get_update, if_neg hne]

theorem relist_slots (now : Int) (slots : List Slot) (h : HostState) : (relist now slots h).slots = slots.foldl Table.put .empty := by
  unfold relist
  extract_lets h₁
  split
  · split <;> rfl
  · rfl

theorem relist_lastListed (now : Int) (slots : List Slot) (h : HostState) : (relist now slots h).lastListed = now := by
  unfold relist
  extract_lets h₁
  split
  · split <;> rfl
  · rfl

theorem relist_asked (now : Int) (slots : List Slot) (h : HostState) :
    HostFilter.inventory.accepts ((relist now slots h).withID h.id) = HostFilter.inventory.accepts h := by
  unfold relist
  extract_lets h₁
  split
  · split <;> rfl
  · rfl

theorem accepts_applySlots {now : Int} {results : List (Host × Except Err (List Slot))} {p : Pool} {k : String} {h' : HostState}
    (hget : (applySlots now results p).hosts.get k = some h') :
    ∃ h, p.hosts.get k = some h ∧ HostFilter.inventory.accepts h' = HostFilter.inventory.accepts h ∧ h'.host = h.host := by
  induction results generalizing p with
  | nil => exact ⟨h', hget, rfl, rfl⟩
  | cons r rest ih =>
    obtain ⟨host, answer⟩ := r
    obtain ⟨h, hmid, hsame, hhost⟩ := ih hget
    cases answer with
    | error err => exact ⟨h, hmid, hsame, hhost⟩
    | ok slots =>
      have hmid' : (p.update host.id (relist now slots)).hosts.get k = some h := hmid
      rw [get_update] at hmid'
      split at hmid'
      · rename_i hk
        obtain ⟨h₀, hold, rfl⟩ := Option.map_eq_some_iff.mp hmid'
        refine ⟨h₀, hk ▸ hold, hsame.trans (relist_asked now slots h₀), hhost.trans ?_⟩
        unfold relist
        extract_lets h₁
        split
        · split <;> rfl
        · rfl
      · exact ⟨h, hmid', hsame, hhost⟩

theorem Accurate.nodup {m : Machine} (h : Accurate w host slots) (hm : m ∈ w.machines.get host.id) :
    (slots.map Slot.index).Nodup := by
  have hperm := (h m hm).map Slot.index
  rw [List.map_map, List.map_map] at hperm
  exact hperm.nodup_iff.mpr m.containers.nodup

theorem Accurate.mem_of_container {m : Machine} (h : Accurate w host slots) (hm : m ∈ w.machines.get host.id)
    {c : Container} (hc : c ∈ m.containers.rows) : ∃ slot ∈ slots, slot.identity = c.slot.identity := by
  have hmem : c.slot.identity ∈ slots.map Slot.identity := (h m hm).mem_iff.mpr (List.mem_map.mpr ⟨c, hc, rfl⟩)
  exact List.mem_map.mp hmem

theorem Accurate.mem_of_slot {m : Machine} (h : Accurate w host slots) (hm : m ∈ w.machines.get host.id)
    {slot : Slot} (hslot : slot ∈ slots) : ∃ c ∈ m.containers.rows, c.slot.identity = slot.identity := by
  have hmem : slot.identity ∈ m.containers.rows.map fun c => c.slot.identity := (h m hm).mem_iff.mp (List.mem_map_of_mem hslot)
  exact List.mem_map.mp hmem

theorem mem_inventoryOf {now : Int} {p : Pool} {worker : Worker} : worker ∈ p.inventoryOf cfg now ↔
    ∃ h ∈ p.hosts.rows, (h.lastListed ≠ 0 ∧ ¬cfg.unreachableGrace < now - h.lastListed) ∧ ∃ slot ∈ h.slots.rows,
      (slot.controllerID = cfg.controllerID ∧ slot.leaseID ≠ "" ∧ slot.runnerName ≠ "") ∧ slotWorker h.id slot.index slot none = worker := by
  simp only [inventoryOf, List.mem_flatMap, List.mem_filter, List.mem_map, List.mem_insertionSort, mem_sorted, Bool.and_eq_true,
    decide_eq_true_eq, and_assoc]

theorem mem_hostsIn {filter : HostFilter} {p : Pool} :
    host ∈ p.hostsIn filter ↔ ∃ h ∈ p.hosts.rows, filter.accepts h = true ∧ h.host = host := by
  simp only [hostsIn, List.mem_map, List.mem_filter, mem_sorted, and_assoc]

theorem not_creating_of_asked {h : HostState} (h' : HostFilter.inventory.accepts h = true) : h.phase ≠ .creating := by
  intro hphase
  simp [HostFilter.accepts, HostState.running, hphase] at h'

theorem nodup_hostsIn (horderly : Orderly (ours cfg) cfg w) : ((w.pool.hostsIn .inventory).map (·.id)).Nodup := by
  rw [hostsIn, List.map_map]
  refine List.pairwise_map.mpr ?_
  refine ((nodup_sorted_ids w.pool).sublist List.filter_sublist).imp_of_mem fun ha hb hne => ?_
  have hname : ∀ {h}, h ∈ w.pool.sorted.filter HostFilter.inventory.accepts → h.host.id = h.id := by
    intro h hmem
    obtain ⟨hrow, hasked⟩ := List.mem_filter.mp hmem
    exact ((horderly.named h.id h (Table.get_of_mem (mem_sorted.mp hrow))).known (not_creating_of_asked hasked)).1
  rw [Function.comp_apply, Function.comp_apply, hname ha, hname hb]
  exact hne

theorem asked_of_container (horderly : Orderly (ours cfg) cfg w) (hwatched : Watched cfg w) (hknown : w.pool.hostsKnown = true) {id : String}
    (hrun : ¬Quiet (ours cfg) w id) : ∃ h, w.pool.hosts.get id = some h ∧ HostFilter.inventory.accepts h = true ∧ h.host.id = id := by
  have hgone : ¬Gone w id := fun hgone => hrun hgone.quiet
  obtain ⟨h, hget⟩ := (hwatched.known hknown id).resolve_left hrun
  have hnamed := horderly.named id h hget
  have htidy := (horderly.tidy id h hget).resolve_left hgone
  have hused : id ∈ w.used := by
    by_contra hnot
    refine hrun fun m hm => ?_
    exact absurd (horderly.machines id m hm) hnot
  have hname : cfg.facts.canCreate = true → isPlaceholder id = false := fun hcreate => horderly.names hcreate id hused
  have haddress : h.host.address ≠ "" := hwatched.addressed id h hget hname
  have hphase : h.phase ≠ .creating := by
    intro hphase
    obtain ⟨hplaceholder, -, hcreate⟩ := hnamed.creating hphase
    rw [hname hcreate] at hplaceholder
    cases hplaceholder
  have hrunning : h.running = true := by
    unfold HostState.running
    cases hcase : h.phase with
    | creating => exact absurd hcase hphase
    | stopped => exact absurd (htidy.down (Or.inl hcase)).1 hrun
    | starting => exact absurd (htidy.down (Or.inr hcase)).1 hrun
    | stopping => exact absurd ((hwatched.stopping id h hget hcase).resolve_left hgone).1 hrun
    | booting | ready | draining | deleting => rfl
  have hboot : (h.everReady || !h.ownBoot) = true := by
    by_contra hnot
    simp only [Bool.or_eq_true, Bool.not_eq_true', not_or, Bool.not_eq_true, Bool.not_eq_false] at hnot
    exact hrun (htidy.own hnot.2 hnot.1)
  refine ⟨h, hget, ?_, (hnamed.known hphase).1⟩
  simp [HostFilter.accepts, haddress, hrunning, hboot]

def Answered (w : World) (host : Host) (answer : Except Err (List Slot)) : Prop :=
  ∀ m ∈ w.machines.get host.id, m.up = true → ∃ slots, answer = .ok slots ∧ Accurate w host slots

section

variable {results : List (Host × Except Err (List Slot))} (horderly : Orderly (ours cfg) cfg w)
  (hosts : (results.map (·.1)).Perm (w.pool.hostsIn .inventory)) (hanswers : ∀ r ∈ results, Answered w r.1 r.2)

include horderly hosts

theorem nodup_results : (results.map (·.1.id)).Nodup := by
  have hnodup := (hosts.map (·.id)).nodup_iff.mpr (nodup_hostsIn horderly)
  rwa [List.map_map] at hnodup

include hanswers

theorem entry_of_answer {id : String} {h : HostState} (hget : w.pool.hosts.get id = some h) (hasked : HostFilter.inventory.accepts h = true)
    {m : Machine} (hm : m ∈ w.machines.get id) (hup : m.up = true) :
    ∃ slots, Accurate w h.host slots ∧ h.host.id = id ∧ (applySlots w.clock results w.pool).hosts.get id = some ((relist w.clock slots h).withID h.id) := by
  have hname : h.host.id = id := ((horderly.named id h hget).known (not_creating_of_asked hasked)).1
  have hhost : h.host ∈ results.map (·.1) := hosts.mem_iff.mpr (mem_hostsIn.mpr ⟨h, Table.mem_of_get hget, hasked, rfl⟩)
  obtain ⟨⟨host, answer⟩, hr, heq⟩ := List.mem_map.mp hhost
  dsimp only at heq
  subst heq
  obtain ⟨slots, rfl, haccurate⟩ := hanswers _ hr m (hname.symm ▸ hm) hup
  refine ⟨slots, haccurate, hname, ?_⟩
  have hlast : (applySlots w.clock results w.pool).hosts.get h.host.id = _ := get_applySlots (nodup_results horderly hosts) w.pool hr
  rw [hname, hget] at hlast
  exact hlast

theorem complete_of_answers (hgrace : 0 ≤ cfg.unreachableGrace) (hwatched : Watched cfg w) (hknown : w.pool.hostsKnown = true) :
    Complete cfg { w with pool := applySlots w.clock results w.pool } ((applySlots w.clock results w.pool).inventoryOf cfg w.clock) where
  every id m hm hup c hc hcontroller hlease hname := by
    have hrun : ¬Quiet (ours cfg) w id := by
      intro hquiet
      have hdead := hquiet m hm c hc
      simp [ours, hup, hcontroller, hlease, hname] at hdead
    obtain ⟨h, hget, hasked, -⟩ := asked_of_container horderly hwatched hknown hrun
    obtain ⟨slots, haccurate, hid, hlast⟩ := entry_of_answer horderly hosts hanswers hget hasked hm hup
    have hm' : m ∈ w.machines.get h.host.id := hid.symm ▸ hm
    obtain ⟨slot, hslot, hidentity⟩ := haccurate.mem_of_container hm' hc
    have hrow : slot ∈ (slots.foldl Table.put .empty : Table Slot.index).rows :=
      Table.mem_of_get (Table.get_foldl_put (haccurate.nodup hm') .empty hslot)
    have hsame : slot.index = c.slot.index ∧ slot.controllerID = c.slot.controllerID ∧ slot.leaseID = c.slot.leaseID ∧
        slot.runnerName = c.slot.runnerName ∧ slot.runnerID = c.slot.runnerID ∧ slot.runnerScaleSetID = c.slot.runnerScaleSetID := by
      simp only [Slot.identity, Slot.mk.injEq] at hidentity
      exact ⟨hidentity.1, hidentity.2.1, hidentity.2.2.1, hidentity.2.2.2.1, hidentity.2.2.2.2.1, hidentity.2.2.2.2.2.1⟩
    obtain ⟨hindex, hcontroller', hlease', hname', hrunner, hscale⟩ := hsame
    have hkey : h.id = id := Table.key_of_get hget
    refine ⟨slotWorker h.id slot.index slot none, mem_inventoryOf.mpr ⟨_, Table.mem_of_get hlast, ⟨?_, ?_⟩, slot, ?_, ⟨?_, ?_, ?_⟩, rfl⟩, ?_⟩
    · rw [show ((relist w.clock slots h).withID h.id).lastListed = w.clock from relist_lastListed w.clock slots h]
      exact ne_of_gt hwatched.clock
    · rw [show ((relist w.clock slots h).withID h.id).lastListed = w.clock from relist_lastListed w.clock slots h, sub_self]
      exact not_lt.mpr hgrace
    · rw [show ((relist w.clock slots h).withID h.id).slots = slots.foldl Table.put .empty from relist_slots w.clock slots h]
      exact hrow
    · rw [hcontroller', hcontroller]
    · rw [hlease']
      exact hlease
    · rw [hname']
      exact hname
    · simp only [slotWorker, firstNonEmpty, hkey, hindex, hlease', hname', hrunner, hscale, hlease, hname, ne_eq, not_false_eq_true, if_true,
        Option.elim_none, true_and]
      exact ⟨ite_eq_right_iff.mpr Eq.symm, ite_eq_right_iff.mpr Eq.symm⟩
  own worker hworker := by
    obtain ⟨h', hrow, -, slot, hslot, ⟨hcontroller, -⟩, rfl⟩ := mem_inventoryOf.mp hworker
    refine ⟨h', hrow, slot, hslot, hcontroller, rfl, fun hasked m hm hup => ?_⟩
    obtain ⟨h, hget, hsame, -⟩ := accepts_applySlots (Table.get_of_mem hrow)
    obtain ⟨slots, haccurate, hid, hlast⟩ := entry_of_answer horderly hosts hanswers hget (hsame ▸ hasked) hm hup
    have heq : h' = (relist w.clock slots h).withID h.id := Option.some.inj ((Table.get_of_mem hrow).symm.trans hlast)
    rw [heq, show ((relist w.clock slots h).withID h.id).slots = slots.foldl Table.put .empty from relist_slots w.clock slots h] at hslot
    rcases Table.mem_of_mem_foldl_put hslot with hslot | hslot
    · exact haccurate.mem_of_slot (hid.symm ▸ hm) hslot
    · exact absurd hslot List.not_mem_nil

end

/-! ### The goroutines -/

/-- A call that `Inventory` makes without delay, once it has begun to ask the agents. -/
def Call.prompt : Call → Bool
  | .inventory => true
  | op => op.lists

def Call.hurries : Call → Bool
  | .hostsIn _ => true
  | op => op.prompt

section

variable (cfg)

structure Observed (op : Call) (w : World) (answer : op.Ans) (w' : World) : Prop where
  orderly : Orderly (ours cfg) cfg w
  watched : Watched cfg w
  exec : ∃ choice, Allowed (ours cfg) cfg w op choice ∧ Exact cfg w op choice ∧ World.exec cfg op choice w = some (answer, w')
  stays : Stays cfg w w'

/-- The logic of a goroutine that may be in a hurry; while it is, nothing else happens. -/
def watching (job : Job) : Logic Call.Ans (World × Bool) where
  step op v answer v' := Observed cfg op v.1 answer v'.1 ∧ v'.2 = (decide (job = .inventory) && op.hurries)
  guard op v := v.2 = (decide (job = .inventory) && op.prompt) ∧ Informed cfg v.1 op
  rely v v' := v'.2 = v.2 ∧ Stays cfg v.1 v'.1 ∧ (v.2 = true → v'.1 = v.1)

def Reported (job : Job) (outcome : Outcome) (v : World × Bool) : Prop :=
  ∀ workers, job = .inventory → outcome = .listed (.ok workers) → Complete cfg v.1 workers

end

variable {job : Job} {v : World × Bool}

def Calmly (A : World → Prop) (v : World × Bool) : Prop := v.2 = false ∧ A v.1

def Call.unaided : Call → Bool
  | .applyHosts _ _ | .createFinished _ _ _ => false
  | _ => true

def Call.aside (job : Job) (op : Call) : Bool := op.unaided && (job ≠ .inventory || !op.hurries)

theorem hurries_of_prompt (h : op.prompt = true) : op.hurries = true := by
  cases op <;> first | rfl | exact h

theorem aside_spec (h : op.aside job = true) :
    (decide (job = .inventory) && op.prompt) = false ∧ (decide (job = .inventory) && op.hurries) = false ∧ Informed cfg w op := by
  simp only [Call.aside, Bool.and_eq_true, Bool.or_eq_true, decide_eq_true_eq, Bool.not_eq_true'] at h
  have hinformed : Informed cfg w op := by
    cases op <;> first | trivial | cases h.1
  have hcalm : (decide (job = .inventory) && op.hurries) = false := by
    rcases h.2 with hjob | hcalm
    · rw [decide_eq_false hjob, Bool.false_and]
    · rw [hcalm, Bool.and_false]
  refine ⟨?_, hcalm, hinformed⟩
  by_contra hprompt
  simp only [Bool.not_eq_false, Bool.and_eq_true] at hprompt
  rw [hprompt.1, hurries_of_prompt hprompt.2] at hcalm
  cases hcalm

theorem safe_observe {A : World → Prop} {B : op.Ans → World → Prop} (hop : (decide (job = .inventory) && op.hurries) = false)
    (hw : Calmly A v) (hinformed : Informed cfg v.1 op) (hB : ∀ answer w w', Stays cfg w w' → B answer w → B answer w')
    (hanswer : ∀ answer w', Observed cfg op v.1 answer w' → B answer w') :
    Safe (watching cfg job) (ask op) (fun answer => Calmly (B answer)) v := by
  have hprompt : (decide (job = .inventory) && op.prompt) = false := by
    by_contra hprompt
    simp only [Bool.not_eq_false, Bool.and_eq_true] at hprompt
    rw [hprompt.1, hurries_of_prompt hprompt.2] at hop
    cases hop
  refine safe_perform ⟨hw.1.trans hprompt.symm, hinformed⟩ fun answer v' hstep v'' hrely => ⟨?_, ?_⟩
  · exact hrely.1.trans (hstep.2.trans hop)
  · exact hB answer _ _ hrely.2.1 (hanswer answer v'.1 hstep.1)

theorem safe_aside {α : Type} {p : Prog Call.Ans α} {A : World → Prop} (hp : Makes (Call.aside job) p)
    (hA : ∀ w w', Stays cfg w w' → A w → A w') (hv : Calmly A v) : Safe (watching cfg job) p (fun _ => Calmly A) v := by
  refine hp.safe (Calmly A) hv (fun op v hop hv => ?_) fun op v answer v' v'' hop hv hstep hrely => ?_
  · obtain ⟨hprompt, -, hinformed⟩ : _ ∧ _ ∧ Informed cfg v.1 op := aside_spec hop
    exact ⟨hv.1.trans hprompt.symm, hinformed⟩
  · obtain ⟨-, hcalm, -⟩ : _ ∧ _ ∧ Informed cfg v.1 op := aside_spec hop
    exact ⟨hrely.1.trans (hstep.2.trans hcalm), hA _ _ hrely.2.1 (hA _ _ hstep.1.stays hv.2)⟩

theorem Covering.stays {listed : List Host} (h : Covering cfg w listed) (hstays : Stays cfg w w') : Covering cfg w' listed where
  nodup := h.nodup
  used host hmem := hstays.used _ (h.used host hmem)
  valid := h.valid
  hosts id := (h.hosts id).imp_right (hstays.sighted id)

theorem covering_of_listHosts {listed : List Host} (h : Observed cfg .listHosts w (.ok listed) w') : Covering cfg w' listed := by
  obtain ⟨choice, -, hexact, hexec⟩ := h.exec
  cases choice <;> simp only [World.exec, Option.some.injEq, Prod.mk.injEq, reduceCtorEq] at hexec
  obtain ⟨rfl, rfl⟩ := hexec
  obtain ⟨hnodup, hlisted, hmachines⟩ := hexact
  refine ⟨hnodup, fun host hmem => ?_, fun host hmem => (hlisted host hmem).2, fun id => ?_⟩
  · obtain ⟨m, hm⟩ := Option.isSome_iff_exists.mp (hlisted host hmem).1
    exact h.orderly.machines _ m hm
  cases hget : w.machines.get id with
  | none =>
    refine Or.inr (Or.inl fun m hm => ?_)
    rw [hget] at hm
    cases hm
  | some m =>
    obtain ⟨host, hmem, hid⟩ := hmachines m (Table.mem_of_get hget)
    exact Or.inl ⟨host, hmem, hid.trans (machine_key hget)⟩

theorem safe_refreshHosts (force : Bool) (hv : v.2 = false) :
    Safe (watching cfg job) (refreshHosts force) (fun failure => Calmly fun w => failure = none → w.pool.hostsKnown = true) v := by
  have hcalm : ∀ {op : Call}, op.hurries = false → (decide (job = .inventory) && op.hurries) = false := fun h => by rw [h, Bool.and_false]
  have hknown : ∀ {P : Prop} {w w'}, Stays cfg w w' → (P → w.pool.hostsKnown = true) → P → w'.pool.hostsKnown = true :=
    fun hstays h hP => hstays.known (h hP)
  refine Safe.bind (M := fun answer => Calmly fun w => answer = true → w.pool.hostsKnown = true)
    (safe_observe (A := fun _ => True) (hcalm rfl) ⟨hv, trivial⟩ trivial (fun _ _ _ => hknown) ?_) fun fresh v hv => ?_
  · rintro answer w' hobserved hfresh
    obtain ⟨choice, -, -, hexec⟩ := hobserved.exec
    simp only [World.exec, World.read, Option.some.injEq, Prod.mk.injEq] at hexec
    obtain ⟨hanswer, rfl⟩ := hexec
    rw [hfresh] at hanswer
    simp only [Pool.fresh, Bool.and_eq_true] at hanswer
    exact hanswer.1
  split
  · rename_i hfresh
    simp only [Bool.and_eq_true] at hfresh
    exact ⟨hv.1, fun _ => hv.2 hfresh.1⟩
  refine Safe.bind (M := fun _ => Calmly fun _ => True)
    (safe_observe (A := fun _ => True) (hcalm rfl) ⟨hv.1, trivial⟩ trivial (fun _ _ _ _ => id) fun _ _ _ => trivial) fun started v hv => ?_
  have hcovering : ∀ (answer : Except Err (List Host)) (w w' : World), Stays cfg w w' → (∀ listed, answer = .ok listed → Covering cfg w listed) →
      ∀ listed, answer = .ok listed → Covering cfg w' listed := fun _ _ _ hstays h listed heq => (h listed heq).stays hstays
  refine Safe.bind (M := fun answer => Calmly fun w => ∀ listed, answer = .ok listed → Covering cfg w listed)
    (safe_observe (A := fun _ => True) (hcalm rfl) hv trivial hcovering ?_) fun answer v hv => ?_
  · rintro answer w' hobserved listed rfl
    exact covering_of_listHosts hobserved
  cases answer with
  | error err => exact ⟨hv.1, fun h => by cases h⟩
  | ok listed =>
    refine Safe.bind (M := fun _ => Calmly fun w => w.pool.hostsKnown = true)
      (safe_observe (A := fun _ => True) (hcalm rfl) ⟨hv.1, trivial⟩ (hv.2 listed rfl) (fun _ _ _ hstays => hstays.known) ?_)
      fun _ v hv => ⟨hv.1, fun _ => hv.2⟩
    rintro answer w' hobserved
    obtain ⟨choice, -, -, hexec⟩ := hobserved.exec
    simp only [World.exec, World.lock, Option.some.injEq, Prod.mk.injEq] at hexec
    obtain ⟨-, rfl⟩ := hexec
    rfl

theorem eq_of_hurry {v' : World × Bool} (h : (watching cfg .inventory).rely (w, true) v') : v' = (w, true) :=
  Prod.ext (h.2.2 rfl) h.1

theorem safe_hurry {post : op.Ans → World × Bool → Prop} (hop : op.prompt = true)
    (hpost : ∀ answer w', Observed cfg op w answer w' → post answer (w', true)) : Safe (watching cfg .inventory) (ask op) post (w, true) := by
  have hinformed : Informed cfg w op := by
    cases op <;> trivial
  refine safe_perform ⟨?_, hinformed⟩ fun answer v' hstep v'' hrely => ?_
  · simp [hop]
  · obtain ⟨w', b⟩ := v'
    have hb : b = true := by
      have hb' := hstep.2
      simpa [hurries_of_prompt hop] using hb'
    subst hb
    rw [eq_of_hurry hrely]
    exact hpost answer w' hstep.1

theorem safe_askAgents (hosts : List Host) : Safe (watching cfg .inventory) (askAll (fun host => ask (.agentList host)) hosts)
    (fun results v => v = (w, true) ∧ results.map (·.1) = hosts ∧ ∀ r ∈ results, Answered w r.1 r.2) (w, true) := by
  induction hosts with
  | nil => exact ⟨rfl, rfl, fun r hr => absurd hr List.not_mem_nil⟩
  | cons host rest ih =>
    refine Safe.bind (M := fun answer v => v = (w, true) ∧ Answered w host answer) (safe_hurry rfl ?_) fun answer v hv => ?_
    · intro answer w' hobserved
      obtain ⟨choice, hallowed, hexact, hexec⟩ := hobserved.exec
      cases choice <;> simp only [World.exec, Option.some.injEq, Prod.mk.injEq, reduceCtorEq] at hexec
      obtain ⟨rfl, rfl⟩ := hexec
      refine ⟨rfl, fun m hm hup => ?_⟩
      obtain ⟨slots, rfl⟩ := hexact m hm hup
      exact ⟨slots, rfl, hallowed⟩
    · obtain ⟨rfl, hanswer⟩ := hv
      refine ih.bind fun results v hv => ?_
      obtain ⟨rfl, hhosts, hanswers⟩ := hv
      refine ⟨rfl, by rw [List.map_cons, hhosts], fun r hr => ?_⟩
      rcases List.mem_cons.mp hr with rfl | hr
      · exact hanswer
      · exact hanswers r hr

theorem safe_pass (hgrace : 0 ≤ cfg.unreachableGrace) (horderly : Orderly (ours cfg) cfg w) (hwatched : Watched cfg w)
    (hknown : w.pool.hostsKnown = true) : Safe (watching cfg .inventory)
      (do
        listSlots (w.pool.hostsIn .inventory)
        return .ok (← ask .inventory))
      (fun (result : Except Err (List Worker)) v => ∀ workers, result = .ok workers → Complete cfg v.1 workers) (w, true) := by
  refine Safe.bind (M := fun _ v => ∃ results : List (Host × Except Err (List Slot)), (results.map (·.1)).Perm (w.pool.hostsIn .inventory) ∧
    (∀ r ∈ results, Answered w r.1 r.2) ∧ v = ({ w with pool := applySlots w.clock results w.pool }, true)) ?_ fun _ v hv => ?_
  · refine Safe.bind (M := fun _ v => v = (w, true)) (safe_hurry rfl ?_) fun begun v hv => ?_
    · intro answer w' hobserved
      obtain ⟨choice, -, -, hexec⟩ := hobserved.exec
      simp only [World.exec, World.read, Option.some.injEq, Prod.mk.injEq] at hexec
      rw [hexec.2]
    subst hv
    refine Safe.bind (M := fun results v => v = (w, true) ∧ (results.map (·.1)).Perm (w.pool.hostsIn .inventory) ∧
      ∀ r ∈ results, Answered w r.1 r.2) ?_ fun results v hv => ?_
    · refine Safe.bind (M := fun order v => v = (w, true) ∧ order.Perm (w.pool.hostsIn .inventory)) (safe_hurry rfl ?_) fun order v hv => ?_
      · intro answer w' hobserved
        obtain ⟨choice, -, -, hexec⟩ := hobserved.exec
        cases choice <;> simp only [World.exec, reduceCtorEq] at hexec
        split at hexec
        · rename_i hperm
          rw [Option.some.injEq, Prod.mk.injEq] at hexec
          obtain ⟨rfl, rfl⟩ := hexec
          exact ⟨rfl, List.isPerm_iff.mp hperm⟩
        · cases hexec
      · obtain ⟨rfl, hperm⟩ := hv
        refine (safe_askAgents order).mono fun results v hv => ?_
        obtain ⟨rfl, hhosts, hanswers⟩ := hv
        exact ⟨rfl, hhosts ▸ hperm, hanswers⟩
    · obtain ⟨rfl, hperm, hanswers⟩ := hv
      refine safe_hurry rfl fun answer w' hobserved => ⟨results, hperm, hanswers, ?_⟩
      obtain ⟨choice, -, -, hexec⟩ := hobserved.exec
      simp only [World.exec, World.lock, Option.some.injEq, Prod.mk.injEq, List.map_map] at hexec
      rw [← hexec.2]
      simp [Function.comp_def]
  · obtain ⟨results, hperm, hanswers, rfl⟩ := hv
    refine Safe.bind (M := fun workers v => Complete cfg v.1 workers) (safe_hurry rfl ?_) fun workers v hv => ?_
    · intro answer w' hobserved
      obtain ⟨choice, -, -, hexec⟩ := hobserved.exec
      simp only [World.exec, World.read, Option.some.injEq, Prod.mk.injEq] at hexec
      obtain ⟨rfl, rfl⟩ := hexec
      exact complete_of_answers horderly hperm hanswers hgrace hwatched hknown
    · rintro workers' heq
      cases heq
      exact hv

theorem safe_inventory (hgrace : 0 ≤ cfg.unreachableGrace) (hv : v.2 = false) :
    Safe (watching cfg .inventory) (Job.program cfg .inventory) (Reported cfg .inventory) v := by
  refine Safe.bind (M := fun result v => ∀ workers, result = .ok workers → Complete cfg v.1 workers) ?_ fun result v hv => ?_
  · refine (safe_refreshHosts false hv).bind fun failure v hv => ?_
    refine Safe.bind (M := fun known => Calmly fun w => (failure = none ∨ known = true) → w.pool.hostsKnown = true)
      (safe_observe (A := fun w => failure = none → w.pool.hostsKnown = true) rfl hv trivial (fun _ _ _ hstays h hP => hstays.known (h hP)) ?_)
      fun known v hv => ?_
    · rintro answer w' hobserved hP
      obtain ⟨choice, -, -, hexec⟩ := hobserved.exec
      simp only [World.exec, World.read, Option.some.injEq, Prod.mk.injEq] at hexec
      obtain ⟨rfl, rfl⟩ := hexec
      rcases hP with hnone | hknown
      · exact hv.2 hnone
      · exact hknown
    split
    · rintro workers heq
      cases heq
    · rename_i hgoes
      have hknown : v.1.pool.hostsKnown = true := by
        refine hv.2 ?_
        cases failure with
        | none => exact Or.inl rfl
        | some err =>
          cases known with
          | true => exact Or.inr rfl
          | false => exact (hgoes err rfl rfl).elim
      refine Safe.bind (M := fun hosts v => ∃ w, v = (w, true) ∧ hosts = w.pool.hostsIn .inventory ∧ Orderly (ours cfg) cfg w ∧ Watched cfg w ∧
        w.pool.hostsKnown = true) (safe_perform ⟨hv.1, trivial⟩ ?_) fun hosts v hv => ?_
      · intro answer v' hstep v'' hrely
        obtain ⟨w', b⟩ := v'
        have hb : b = true := hstep.2
        subst hb
        rw [eq_of_hurry hrely]
        obtain ⟨choice, -, -, hexec⟩ := hstep.1.exec
        simp only [World.exec, World.read, Option.some.injEq, Prod.mk.injEq] at hexec
        obtain ⟨rfl, rfl⟩ := hexec
        exact ⟨_, rfl, rfl, hstep.1.orderly, hstep.1.watched, hknown⟩
      · obtain ⟨w, rfl, rfl, horderly, hwatched, hknown⟩ := hv
        exact safe_pass hgrace horderly hwatched hknown
  · rintro workers - heq
    simp only [Outcome.listed.injEq] at heq
    exact hv workers heq

theorem aside_of_unaided (hjob : job ≠ .inventory) (hop : op.unaided = true) : op.aside job = true := by
  simp [Call.aside, hop, hjob]

theorem safe_others {α : Type} {p : Prog Call.Ans α} (hjob : job ≠ .inventory) (hp : Makes Call.unaided p) (hv : v.2 = false) :
    Safe (watching cfg job) p (fun _ v => v.2 = false) v :=
  (safe_aside (A := fun _ => True) (hp.mono fun _ => aside_of_unaided hjob) (fun _ _ _ => id) ⟨hv, trivial⟩).mono fun _ _ h => h.1

theorem safe_refresh (force : Bool) (hv : v.2 = false) : Safe (watching cfg job) (refreshHosts force) (fun _ v => v.2 = false) v :=
  (safe_refreshHosts force hv).mono fun _ _ h => h.1

theorem unaided_listSlots (hosts : List Host) : Makes Call.unaided (listSlots hosts) :=
  (makes_listSlots hosts).mono fun op hop => by cases op <;> first | rfl | cases hop

theorem safe_destroy (workerID : String) (hv : v.2 = false) :
    Safe (watching cfg (.destroy workerID)) (destroy cfg workerID) (fun _ v => v.2 = false) v := by
  have hask : ∀ {op : Call} {v : World × Bool}, op.unaided = true → v.2 = false →
      Safe (watching cfg (.destroy workerID)) (ask op) (fun _ v => v.2 = false) v := fun hop hv => safe_others (by simp) (makes_ask hop) hv
  have hremove : ∀ {host hostID slot leaseID} {v : World × Bool}, v.2 = false →
      Safe (watching cfg (.destroy workerID)) (removeFrom cfg host hostID slot leaseID) (fun _ v => v.2 = false) v := fun hv =>
    safe_others (by simp) ((makes_removeFrom cfg _ _ _ _).mono fun op hop => by cases op <;> first | rfl | cases hop) hv
  unfold destroy
  split
  · exact hv
  · refine (hask rfl hv).bind fun known v hv => ?_
    cases known with
    | some host => exact hremove hv
    | none =>
      refine (safe_refresh true hv).bind fun failure v hv => ?_
      cases failure with
      | some err => exact hv
      | none =>
        refine (hask rfl hv).bind fun known v hv => ?_
        cases known with
        | some host => exact hremove hv
        | none => exact hv

theorem safe_maintenance (hv : v.2 = false) : Safe (watching cfg .maintain) (maintain cfg) (fun _ v => v.2 = false) v := by
  have hothers : ∀ {α : Type} {p : Prog Call.Ans α} {v : World × Bool}, Makes Call.unaided p → v.2 = false →
      Safe (watching cfg .maintain) p (fun _ v => v.2 = false) v := fun hp hv => safe_others (by simp) hp hv
  refine (hothers ((makes_followTag cfg).mono fun op hop => by cases op <;> first | rfl | cases hop) hv).bind fun _ v hv => ?_
  refine (safe_refresh false hv).bind fun _ v hv => ?_
  refine (hothers (makes_probe.mono fun op hop => by cases op <;> first | rfl | cases hop) hv).bind fun _ v hv => ?_
  refine (hothers (makes_ask rfl) hv).bind fun hosts v hv => ?_
  refine (hothers (unaided_listSlots hosts) hv).bind fun _ v hv => ?_
  refine (hothers (makes_ask rfl) hv).bind fun _ v hv => ?_
  refine (hothers ((makes_returnHosts cfg).mono fun op hop => by cases op <;> first | rfl | cases hop) hv).bind fun _ v hv => ?_
  split
  · exact (hothers (makes_ask rfl) hv).bind fun _ v hv => hv
  · exact hv

theorem safe_creation (key image : String) (hv : v.2 = false) :
    Safe (watching cfg (.create key image)) (create key image) (fun _ v => v.2 = false) v := by
  refine Safe.bind (M := fun result => Calmly fun _ => ∀ host, result = .ok host → host.address ≠ "")
    (safe_observe (A := fun _ => True) rfl ⟨hv, trivial⟩ trivial (fun _ _ _ _ => id) ?_) fun result v hv => ?_
  · rintro answer w' hobserved host rfl
    obtain ⟨choice, -, hexact, hexec⟩ := hobserved.exec
    cases choice with
    | created answer made =>
      cases answer with
      | ok host' =>
        simp only [World.exec, Option.map_eq_some_iff, Prod.mk.injEq, Except.ok.injEq] at hexec
        obtain ⟨-, -, rfl, -⟩ := hexec
        exact hexact
      | error err => cases made <;> simp [World.exec] at hexec
    | _ => simp [World.exec] at hexec
  · have hinformed : Informed cfg v.1 (.createFinished key image result) := by
      cases result with
      | error err => trivial
      | ok host => exact hv.2 host rfl
    exact (safe_observe (A := fun _ => True) (B := fun _ _ => True) rfl ⟨hv.1, trivial⟩ hinformed (fun _ _ _ _ => id) fun _ _ _ => trivial).mono
      fun _ _ h => h.1

theorem safe_program (hgrace : 0 ≤ cfg.unreachableGrace) (job : Job) (hv : v.2 = false) :
    Safe (watching cfg job) (Job.program cfg job) (Reported cfg job) v := by
  have hdone : ∀ {job : Job} {outcome : Outcome} {v : World × Bool}, job ≠ .inventory → Reported cfg job outcome v := fun hne _ heq =>
    absurd heq hne
  cases job with
  | inventory => exact safe_inventory hgrace hv
  | launch lease grow =>
    refine Safe.bind (M := fun _ _ => True) ?_ fun _ _ _ => hdone (by simp)
    refine (safe_others (by simp) ((makes_launch cfg lease grow).mono fun op hop => ?_) hv).mono fun _ _ _ => trivial
    cases op <;> first | rfl | cases hop
  | destroy workerID => exact (safe_destroy workerID hv).bind fun _ _ _ => hdone (by simp)
  | maintain => exact (safe_maintenance hv).bind fun _ _ _ => hdone (by simp)
  | create key image => exact (safe_creation key image hv).bind fun _ _ _ => hdone (by simp)
  | start id =>
    refine Safe.bind (M := fun _ _ => True) ?_ fun _ _ _ => hdone (by simp)
    refine (safe_others (by simp) ((makes_start id).mono fun op hop => ?_) hv).mono fun _ _ _ => trivial
    cases op <;> first | rfl | cases hop

/-! ### Whole runs -/

/-- An inventory that has begun to ask the agents. -/
def hurried : Job × Prog Call.Ans Outcome → Bool
  | (.inventory, .call op _) => op.prompt
  | _ => false

/-- Nothing but a restart happens while an inventory asks the agents. -/
def undelayed (s : System) (label : Label) : Bool :=
  label = .restart || (List.range s.threads.length).all fun j =>
    !(s.threads[j]?).any hurried || match label with
      | .advance i _ => i = j
      | _ => false

/-- Exact answers: a host listing names every host, once, by a usable ID and with its address; an agent that is up lists its containers. -/
def exact (s : System) : Label → Bool
  | .advance i choice =>
    match s.threads.pending i, choice with
    | some (_, .listHosts), .hosts (.ok listed) =>
      decide (listed.map (·.id)).Nodup &&
        listed.all (fun host => (s.world.machines.get host.id).isSome && validID host.id && host.address ≠ "") &&
        s.world.machines.rows.all fun m => listed.any (·.id = m.host.id)
    | some (_, .createHost _), .created answer made =>
      ((Choice.created answer made).makes.all fun host => !isPlaceholder host.id) && answer.toOption.all (·.address ≠ "")
    | some (_, .agentList host), .slots (.ok slots) => Accurate s.world host slots
    | some (_, .agentList host), .slots (.error _) => (s.world.machines.get host.id).all (!·.up)
    | _, _ => true
  | _ => true

/-- A host that the pool decides to stop runs no container of this controller. -/
def spared (cfg : Config) (s : System) : Label → Bool
  | .advance i _ =>
    match s.threads.pending i with
    | some (_, .returnCandidates) => s.world.pool.hosts.rows.all fun h =>
      (s.world.pool.returnReason cfg s.world.clock (s.world.pool.baseHosts cfg) h).all (!·.2) || Quiet (ours cfg) s.world h.id
    | _ => true
  | _ => true

section

variable (cfg)

def Attended (t : Job × Prog Call.Ans Outcome) (w : World) : Prop :=
  ∀ w', Stays cfg w w' → (hurried t = true → w' = w) → Safe (watching cfg t.1) t.2 (Reported cfg t.1) (w', hurried t)

structure System.Attentive (s : System) : Prop where
  safe : s.Safe (ours cfg) cfg
  watched : Watched cfg s.world
  threads : ∀ t ∈ s.threads, Attended cfg t s.world

def Attentively (s : System) (label : Label) : Prop :=
  exact s label = true ∧ undelayed s label = true ∧ sheltered (ours cfg) cfg s label = true ∧ spared cfg s label = true

end

theorem exact_of_exact {i : Nat} {choice : Choice} (hpending : s.threads.pending i = some (job, op))
    (hexact : exact s (.advance i choice) = true) (hspared : spared cfg s (.advance i choice) = true) : Exact cfg s.world op choice := by
  simp only [exact, hpending] at hexact
  simp only [spared, hpending] at hspared
  cases op with
  | listHosts =>
    cases choice with
    | hosts answer =>
      cases answer with
      | error err => trivial
      | ok listed =>
        simp only [Bool.and_eq_true, decide_eq_true_eq, List.all_eq_true, List.any_eq_true] at hexact
        obtain ⟨⟨hnodup, hlisted⟩, hmachines⟩ := hexact
        exact ⟨hnodup, fun host hmem => ⟨(hlisted host hmem).1.1, (hlisted host hmem).1.2, (hlisted host hmem).2⟩, hmachines⟩
    | _ => trivial
  | createHost image =>
    cases choice with
    | created answer made =>
      cases answer with
      | error err => trivial
      | ok host =>
        simp only [Except.toOption, Option.all_some, Bool.and_eq_true, decide_eq_true_eq] at hexact
        exact hexact.2
    | _ => trivial
  | agentList host =>
    cases choice with
    | slots answer =>
      cases answer with
      | ok slots => exact fun _ _ _ => ⟨slots, rfl⟩
      | error err =>
        intro m hm hup
        have hdown := (Option.all_eq_true _ _).mp hexact m hm
        rw [hup] at hdown
        cases hdown
    | _ => trivial
  | returnCandidates =>
    rintro h hmem ⟨reason, hreason⟩
    simp only [List.all_eq_true] at hspared
    have hhost := hspared h hmem
    rw [hreason] at hhost
    simpa using hhost
  | _ => trivial

theorem undelayed_spec {i j : Nat} {choice : Choice}
    (h : undelayed s (.advance i choice) = true) (hne : j ≠ i) (hj : s.threads[j]? = some t) : hurried t = false := by
  simp only [undelayed, reduceCtorEq, decide_false, Bool.false_or, List.all_eq_true, Bool.or_eq_true, Bool.not_eq_true', decide_eq_true_eq] at h
  have hlt : j < s.threads.length := (List.getElem?_eq_some_iff.mp hj).1
  rcases h j (List.mem_range.mpr hlt) with hcalm | heq
  · simpa [hj] using hcalm
  · exact absurd heq.symm hne

theorem undelayed_of_mem {label : Label} (h : undelayed s label = true)
    (hrestart : label ≠ .restart) (hlabel : ∀ i choice, label ≠ .advance i choice) (ht : t ∈ s.threads) : hurried t = false := by
  obtain ⟨j, hj⟩ := List.mem_iff_getElem?.mp ht
  have hlt : j < s.threads.length := (List.getElem?_eq_some_iff.mp hj).1
  simp only [undelayed, hrestart, decide_false, Bool.false_or, List.all_eq_true, Bool.or_eq_true, Bool.not_eq_true'] at h
  rcases h j (List.mem_range.mpr hlt) with hcalm | heq
  · simpa [hj] using hcalm
  · cases label with
    | advance i choice => exact absurd rfl (hlabel i choice)
    | _ => cases heq

theorem Attended.stays (h : Attended cfg t w) (hstays : Stays cfg w w') (hcalm : hurried t = false) :
    Attended cfg t w' := by
  intro w'' hstays' _
  refine h w'' (hstays.trans hstays') fun hhurried => ?_
  rw [hcalm] at hhurried
  cases hhurried

theorem attended_fork (hgrace : 0 ≤ cfg.unreachableGrace) (ht : t = (crew cfg).fork job)
    (hcalm : hurried t = false) : Attended cfg t w := by
  subst ht
  intro w' _ _
  rw [hcalm]
  exact safe_program hgrace job rfl

theorem hurried_fork (job : Job) : hurried ((crew cfg).fork job) = false := by
  cases job <;> rfl

theorem watched_new (hpool : w.pool = new cfg) (hclock : 0 < w.clock) : Watched cfg w where
  clock := hclock
  known hknown := by
    rw [hpool] at hknown
    cases hknown
  addressed id h hget := by
    rw [hpool] at hget
    cases hget
  stopping id h hget := by
    rw [hpool] at hget
    cases hget

theorem System.Attentive.informed (h : s.Attentive cfg) {i : Nat} {next : op.Ans → Prog Call.Ans Outcome}
    (hthread : s.threads[i]? = some (job, .call op next)) : Informed cfg s.world op := by
  have hself := h.threads _ (List.mem_of_getElem? hthread) s.world (.refl h.safe.inv h.watched) fun _ => rfl
  exact hself.1.2

theorem System.Attentive.admitted (h : s.Attentive cfg) {label : Label} (hok : Attentively cfg s label) :
    Admitted (ours cfg) cfg s label := by
  cases label with
  | env | restart => trivial
  | spawn job =>
    cases job with
    | launch lease grow => exact fun htimed => htimed.elim
    | _ => trivial
  | advance i choice =>
    obtain ⟨hexact, -, hsheltered, -⟩ := hok
    rintro ⟨job, op⟩ hpending
    rw [Option.mem_def] at hpending
    obtain ⟨next, hthread⟩ := Threads.getElem?_of_pending hpending
    simp only [exact, hpending] at hexact
    cases op with
    | applyHosts started listed =>
      have hcovering : Covering cfg s.world listed := h.informed hthread
      exact hostsFit_of_sheltered hpending hcovering.nodup hcovering.used hsheltered
    | createHost image =>
      cases choice with
      | created answer made =>
        simp only [Bool.and_eq_true] at hexact
        intro host hmakes
        simpa using (Option.all_eq_true _ _).mp hexact.1 host hmakes
      | _ => exact fun host hmakes => by cases hmakes
    | agentList host =>
      cases choice with
      | slots answer =>
        cases answer with
        | ok slots =>
          have haccurate : Accurate s.world host slots := of_decide_eq_true hexact
          exact haccurate
        | error err => trivial
      | _ => trivial
    | _ => trivial

theorem System.Attentive.observed (hgrace : 0 ≤ cfg.unreachableGrace) (h : s.Attentive cfg) {i : Nat} {choice : Choice}
    {next : op.Ans → Prog Call.Ans Outcome} {answer : op.Ans} (hok : Attentively cfg s (.advance i choice))
    (hthread : s.threads[i]? = some (job, .call op next)) (hexec : World.exec cfg op choice s.world = some (answer, w')) :
    Observed cfg op s.world answer w' := by
  have hpending : s.threads.pending i = some (job, op) := Threads.pending_of_getElem? hthread
  have hallowed : Allowed (ours cfg) cfg s.world op choice := h.admitted hok (job, op) hpending
  have hexact : Exact cfg s.world op choice := exact_of_exact hpending hok.1 hok.2.2.2
  have hfit : Fit (ours cfg) cfg s.world op := (h.safe.guard (lawful hgrace) hpending).1
  exact ⟨h.safe.inv, h.watched, ⟨choice, hallowed, hexact, hexec⟩,
    stays_exec hgrace h.safe.inv h.watched hfit hallowed hexact (h.informed hthread) hexec⟩

theorem Attended.next {next : op.Ans → Prog Call.Ans Outcome} {answer : op.Ans} (h : Attended cfg (job, .call op next) w)
    (hobserved : Observed cfg op w answer w') (hcalls : ∃ op' next', next answer = .call op' next') : Attended cfg (job, next answer) w' := by
  obtain ⟨op', next', hcall⟩ := hcalls
  have hself := h w (.refl hobserved.orderly hobserved.watched) fun _ => rfl
  intro w'' hstays hhurried
  have hnext : ∀ w'', Stays cfg w' w'' → ((decide (job = .inventory) && op.hurries) = true → w'' = w') →
      Safe (watching cfg job) (next answer) (Reported cfg job) (w'', decide (job = .inventory) && op.hurries) := fun w'' hstays hsame =>
    hself.2 answer (w', decide (job = .inventory) && op.hurries) ⟨hobserved, rfl⟩ (w'', _) ⟨rfl, hstays, hsame⟩
  -- the next call tells whether the goroutine is in a hurry
  have hbit : hurried (job, next answer) = (decide (job = .inventory) && op.hurries) := by
    have hguard := hnext w' (.refl hobserved.stays.orderly hobserved.stays.watched) fun _ => rfl
    rw [hcall] at hguard ⊢
    have hbit' : (decide (job = .inventory) && op.hurries) = (decide (job = .inventory) && op'.prompt) := hguard.1.1
    rw [hbit']
    cases job <;> rfl
  rw [hbit] at hhurried ⊢
  exact hnext w'' hstays hhurried

theorem System.Attentive.step (hgrace : 0 ≤ cfg.unreachableGrace) {s' : System} {label : Label} (h : s.Attentive cfg)
    (hok : Attentively cfg s label) (hstep : System.step cfg label s = some s') : s'.Attentive cfg := by
  have hsafe : s'.Safe (ours cfg) cfg := h.safe.step hgrace (h.admitted hok) hstep
  cases System.stepped cfg hstep with
  | env change =>
    have heased : Eased (ours cfg) s.world (s.world.change change) := eased_change change
    refine ⟨hsafe, heased.watched h.watched, fun t ht => (h.threads t ht).stays (heased.stays hsafe.inv h.watched) ?_⟩
    exact undelayed_of_mem hok.2.1 (by simp) (by simp) ht
  | restart => exact ⟨hsafe, watched_new rfl h.watched.clock, fun t ht => absurd ht List.not_mem_nil⟩
  | spawn job =>
    have heased : Eased (ours cfg) s.world (s.world.noting job) := eased_noting job
    have hold : ∀ t ∈ s.threads, Attended cfg t (s.world.noting job) := fun t ht =>
      (h.threads t ht).stays (heased.stays hsafe.inv h.watched) (undelayed_of_mem hok.2.1 (by simp) (by simp) ht)
    refine ⟨hsafe, heased.watched h.watched, fun t ht => ?_⟩
    dsimp only at ht
    split at ht
    · rcases List.mem_append.mp ht with ht | ht
      · exact hold t ht
      · rw [List.mem_singleton] at ht
        exact attended_fork hgrace ht (ht ▸ hurried_fork job)
    · exact hold t ht
  | advance i choice hadvance =>
    obtain ⟨job, op, next, answer, hthread, hexec, rfl⟩ := Crew.advance_cases hadvance
    have hobserved : Observed cfg op s.world answer _ := h.observed hgrace hok hthread hexec
    refine ⟨hsafe, hobserved.stays.watched, fun t ht => ?_⟩
    rcases List.mem_append.mp ht with hresumed | hforked
    · rcases Threads.resume_cases s.threads i job (next answer) hresumed with ⟨rfl, hcalls⟩ | ⟨j, hne, hj⟩
      · exact (h.threads _ (List.mem_of_getElem? hthread)).next hobserved hcalls
      · exact (h.threads t (List.mem_of_getElem? hj)).stays hobserved.stays (undelayed_spec hok.2.1 hne hj)
    · obtain ⟨child, -, rfl⟩ := List.mem_map.mp hforked
      exact attended_fork hgrace rfl (hurried_fork child)

/-- A pool that `New` accepts, with exact and prompt answers, returns complete inventories, in every run in which each host listing finds the pool sheltered and no host with a container of this controller is picked to be stopped. -/
theorem inventory_is_complete {raw : Config} (hcfg : raw.checked = .ok cfg) {clock : Int} (hclock : 0 < clock)
    {machines : Table fun m : Machine => m.host.id} (hnames : cfg.facts.canCreate = true → ∀ m ∈ machines.rows, isPlaceholder m.host.id = false)
    {s s' : System} (hreach : Reach (System.step cfg) (Attentively cfg) (System.initial cfg clock machines) s) {label : Label}
    (hok : Attentively cfg s label) (hstep : System.step cfg label s = some s') {workers : List Worker}
    (hended : s.ended cfg label = some (.inventory, .listed (.ok workers))) : Complete cfg s'.world workers := by
  have hgrace : 0 ≤ cfg.unreachableGrace := le_of_lt (Config.unreachableGrace_pos hcfg)
  have hinitial : (System.initial cfg clock machines).Attentive cfg := by
    exact ⟨safe_initial hnames fun htimed => htimed.elim, watched_new rfl hclock, fun t ht => absurd ht List.not_mem_nil⟩
  have hattentive : s.Attentive cfg := hreach.invariant hinitial fun h hok hstep => h.step hgrace hok hstep
  cases System.stepped cfg hstep with
  | advance i choice hadvance =>
    obtain ⟨op, next, answer, w', hthread, hexec, hreturn⟩ := Crew.ended_cases hended
    obtain ⟨job', op', next', answer', hthread', hexec', -⟩ := Crew.advance_cases hadvance
    rw [hthread, Option.some.injEq, Prod.mk.injEq, Prog.call.injEq] at hthread'
    obtain ⟨rfl, rfl, -⟩ := hthread'
    rw [hexec, Option.some.injEq, Prod.mk.injEq] at hexec'
    obtain ⟨rfl, rfl⟩ := hexec'
    have hobserved : Observed cfg op s.world answer w' := hattentive.observed hgrace hok hthread hexec
    have hself := hattentive.threads _ (List.mem_of_getElem? hthread) s.world (.refl hattentive.safe.inv hattentive.watched) fun _ => rfl
    have hlast := hself.2 answer (w', op.hurries) ⟨hobserved, rfl⟩ (w', op.hurries)
      ⟨rfl, .refl hobserved.stays.orderly hobserved.stays.watched, fun _ => rfl⟩
    rw [hreturn] at hlast
    exact hlast workers rfl rfl
  | _ => cases hended

/-- The calls of an inventory up to the last one. It finds these hosts, and the agents of those it asks answer. -/
def listing (hosts : List Host) (answers : List (Host × Except Err (List Slot))) : List Label :=
  .spawn .inventory :: Demo.calls ((2, .hosts (.ok hosts)) :: (4, .order (answers.map (·.1))) :: answers.map fun r => (0, .slots r.2)) ++
    [.advance 0 .none]

/-- A container that an earlier controller of the same name has started. -/
def survivor : Container where
  slot := { index := 0, controllerID := "controller", leaseID := "b", runnerName := "runner-b", runnerID := 1, runnerScaleSetID := 1, state := "started" }
  deadline := Demo.noon + Duration.hour

def occupied : Table fun m : Machine => m.host.id :=
  Table.empty.put { host := Demo.host, bornAt := Demo.noon - Duration.hour, containers := Table.empty.put survivor }

instance (s : System) (label : Label) : Decidable (Attentively cfg s label) := inferInstanceAs (Decidable (_ ∧ _))

theorem inventory_is_complete_after_start : ∃ (s s' : System) (workers : List Worker),
    s.ended Demo.small (.advance 0 .none) = some (.inventory, .listed (.ok workers)) ∧ workers.map (·.leaseID) = ["b"] ∧
    Complete Demo.small s'.world workers := by
  have hok : Obeys (System.step Demo.small) (Attentively Demo.small) (listing [Demo.host] [(Demo.host, .ok [survivor.slot])])
      (System.initial Demo.small Demo.noon occupied) := by decide +kernel
  have hrun : ∃ s ∈ replay (System.step Demo.small) (listing [Demo.host] [(Demo.host, .ok [survivor.slot])])
      (System.initial Demo.small Demo.noon occupied), Attentively Demo.small s (.advance 0 .none) ∧
      (∃ s' ∈ System.step Demo.small (.advance 0 .none) s, s'.threads.length = 0) ∧
      s.ended Demo.small (.advance 0 .none) = some (.inventory, .listed (.ok [slotWorker "7" 0 survivor.slot none])) := by decide +kernel
  obtain ⟨s, hs, hlast, ⟨s', hs', -⟩, hended⟩ := hrun
  have hcfg : Demo.raw.checked = .ok Demo.small := rfl
  exact ⟨s, s', _, hended, rfl, inventory_is_complete hcfg (by decide) (by decide) (Reach.start.of_replay hok hs) hlast hs' hended⟩

/-- After a restart within ten minutes of a host's creation, the pool takes the host for a fresh boot of its own and does not ask it: the inventory succeeds without the job that runs there. -/
theorem restart_hides_worker : ∃ s : System,
    Reach (System.step Demo.small) (fun s label => exact s label = true ∧ undelayed s label = true) (System.initial Demo.small Demo.noon .empty) s ∧
    exact s (.advance 0 .none) = true ∧ undelayed s (.advance 0 .none) = true ∧
    s.ended Demo.small (.advance 0 .none) = some (.inventory, .listed (.ok [])) ∧
    ∃ m ∈ s.world.machines.get "8", m.up = true ∧ ∃ c ∈ m.containers.rows, c.running = true ∧ c.slot.controllerID = Demo.small.controllerID ∧
      c.slot.leaseID = "b" ∧ c.slot.runnerName = "runner-b" := by
  have hok : Obeys (System.step Demo.small) (fun s label => exact s label = true ∧ undelayed s label = true)
      (firstJob ++ .restart :: listing [Demo.fresh] []) (System.initial Demo.small Demo.noon .empty) := by decide +kernel
  have hrun : ∃ s ∈ replay (System.step Demo.small) (firstJob ++ .restart :: listing [Demo.fresh] [])
      (System.initial Demo.small Demo.noon .empty), exact s (.advance 0 .none) = true ∧ undelayed s (.advance 0 .none) = true ∧
      s.ended Demo.small (.advance 0 .none) = some (.inventory, .listed (.ok [])) ∧
      ∃ m ∈ s.world.machines.get "8", m.up = true ∧ ∃ c ∈ m.containers.rows, c.running = true ∧ c.slot.controllerID = Demo.small.controllerID ∧
        c.slot.leaseID = "b" ∧ c.slot.runnerName = "runner-b" := by decide +kernel
  obtain ⟨s, hs, hfacts⟩ := hrun
  exact ⟨s, Reach.start.of_replay hok hs, hfacts⟩

end Pool

end RunnerYard
