import RunnerYard.Pool.Returns

/-!
# What the pool has in sight

`Inventory` asks the hosts that the pool's map shows as running. That every container of this controller is found rests on three things: a host that runs one is in the map once the hosts are known, it is entered with its address, and a host that is being stopped runs none. `Watched` states them, and every call of a pool whose source and agents answer exactly keeps them.
-/

namespace RunnerYard

open Interaction

namespace Pool

/-- A container of this controller that carries a lease and a runner name, on a machine that is up. -/
def ours (cfg : Config) : Liveness where
  live _ up c := up && c.slot.controllerID = cfg.controllerID && c.slot.leaseID ≠ "" && c.slot.runnerName ≠ ""
  timed := False
  later _ hlive := hlive
  exited hlive := hlive
  halted := rfl
  deadline htimed := htimed.elim

variable (cfg : Config)

/-- The pool has an entry for the host, or the host runs nothing that `Inventory` should list. -/
def Sighted (w : World) (id : String) : Prop := Quiet (ours cfg) w id ∨ ∃ h, w.pool.hosts.get id = some h

structure Watched (w : World) : Prop where
  clock : 0 < w.clock
  known : w.pool.hostsKnown = true → ∀ id, Sighted cfg w id
  addressed : ∀ id h, w.pool.hosts.get id = some h → (cfg.facts.canCreate = true → isPlaceholder id = false) → h.view.address ≠ ""
  stopping : ∀ id h, w.pool.hosts.get id = some h → h.view.phase = .stopping →
    Gone w id ∨ Quiet (ours cfg) w id ∧ h.view.reserved = .empty

/-- What a listing of the source must give for the pool to have every host in sight. -/
structure Covering (w : World) (listed : List Host) : Prop where
  nodup : (listed.map (·.id)).Nodup
  used : ∀ host ∈ listed, host.id ∈ w.used
  valid : ∀ host ∈ listed, validID host.id = true ∧ host.address ≠ ""
  hosts : ∀ id, (∃ host ∈ listed, host.id = id) ∨ Sighted cfg w id

def Informed (w : World) : Call → Prop
  | .applyHosts _ listed => Covering cfg w listed
  | .createFinished _ _ (.ok host) => host.address ≠ ""
  | _ => True

/-- Exact answers, and a host that is to be stopped runs no container of this controller. -/
def Exact (w : World) : Call → Choice → Prop
  | .listHosts, .hosts (.ok listed) =>
    (listed.map (·.id)).Nodup ∧ (∀ host ∈ listed, (w.machines.get host.id).isSome = true ∧ validID host.id = true ∧ host.address ≠ "") ∧
      ∀ m ∈ w.machines.rows, ∃ host ∈ listed, host.id = m.host.id
  | .createHost _, .created (.ok host) _ => host.address ≠ ""
  | .agentList host, .slots answer => ∀ m ∈ w.machines.get host.id, m.up = true → ∃ slots, answer = .ok slots
  | .returnCandidates, _ => ∀ h ∈ w.pool.hosts.rows,
    (∃ reason, w.pool.returnReason cfg w.clock (w.pool.baseHosts cfg) h = some (reason, true)) → Quiet (ours cfg) w h.id
  | _, _ => True

/-- What the others keep for a goroutine that lists hosts or slots. -/
structure Stays (w w' : World) : Prop where
  orderly : Orderly (ours cfg) cfg w'
  watched : Watched cfg w'
  used : ∀ id ∈ w.used, id ∈ w'.used
  known : w.pool.hostsKnown = true → w'.pool.hostsKnown = true
  sighted : ∀ id, Sighted cfg w id → Sighted cfg w' id

variable {cfg} {w w' : World} {op : Call}

theorem Stays.refl (horderly : Orderly (ours cfg) cfg w) (hwatched : Watched cfg w) : Stays cfg w w :=
  ⟨horderly, hwatched, fun _ => id, id, fun _ => id⟩

theorem Stays.trans {w'' : World} (h : Stays cfg w w') (h' : Stays cfg w' w'') : Stays cfg w w'' where
  orderly := h'.orderly
  watched := h'.watched
  used id hid := h'.used id (h.used id hid)
  known hknown := h'.known (h.known hknown)
  sighted id hsighted := h'.sighted id (h.sighted id hsighted)

/-! ### Host listings -/

theorem hostsKnown_update (p : Pool) (id : String) (f : HostState → HostState) : (p.update id f).hostsKnown = p.hostsKnown := by
  unfold update
  split <;> rfl

theorem hostsKnown_effect_of_ne (now : Int) (p : Pool) (hop : ∀ started listed, op ≠ .applyHosts started listed) :
    (effect cfg now op p).hostsKnown = p.hostsKnown := by
  have hfold : ∀ {β : Type} (l : List β) (step : Pool → β → Pool), (∀ q x, (step q x).hostsKnown = q.hostsKnown) →
      ∀ q : Pool, (l.foldl step q).hostsKnown = q.hostsKnown := by
    intro β l step hstep
    induction l with
    | nil => exact fun q => rfl
    | cons x rest ih => exact fun q => (ih (step q x)).trans (hstep q x)
  cases op with
  | applyHosts started listed => exact absurd rfl (hop started listed)
  | applyInfos results =>
    refine hfold results _ (fun q r => ?_) p
    obtain ⟨host, answer⟩ := r
    cases answer with
    | error err => rfl
    | ok info => exact hostsKnown_update q host.id _
  | applySlots results =>
    refine hfold _ _ (fun q r => ?_) p
    obtain ⟨host, answer⟩ := r
    cases answer with
    | error err => rfl
    | ok slots => exact hostsKnown_update q host.id _
  | cleared hostID slot leaseID => exact hostsKnown_update p hostID _
  | reserve leaseID =>
    show (reserve cfg now leaseID p).2.hostsKnown = p.hostsKnown
    unfold reserve
    split
    · rfl
    · exact hostsKnown_update p _ _
  | release hostID slot => exact hostsKnown_update p hostID _
  | commit hostID slot started lease => exact hostsKnown_update p hostID _
  | holdSuspect hostID slot lease => exact hostsKnown_update p hostID _
  | markForeign hostID slot => exact hostsKnown_update p hostID _
  | refuseHost hostID reason => exact hostsKnown_update p hostID _
  | followed resolved =>
    show (followed cfg now resolved p).hostsKnown = p.hostsKnown
    unfold followed
    split
    · split
      · rfl
      · split <;> rfl
    · rfl
  | replaceStale =>
    show (replaceStale cfg now p).hostsKnown = p.hostsKnown
    unfold replaceStale
    split
    · rfl
    · dsimp only
      split
      · rfl
      · split
        · rfl
        · exact hostsKnown_update p _ _
  | restorePhase hostID previous => exact hostsKnown_update p hostID _
  | hostStoppedAt hostID => exact hostsKnown_update p hostID _
  | grow =>
    have hstarts : ∀ (want : Nat) (q : Pool), (growStarts cfg now want q).2.2.hostsKnown = q.hostsKnown := by
      intro want
      induction want with
      | zero => exact fun q => rfl
      | succ want ih =>
        intro q
        unfold growStarts
        split
        · rfl
        · exact (ih _).trans (hostsKnown_update q _ _)
    have hcreates : ∀ (want : Nat) (q : Pool), (growCreates now want q).2.hostsKnown = q.hostsKnown := by
      intro want
      induction want with
      | zero => exact fun q => rfl
      | succ want ih => exact fun q => ih (q.withPlaceholder now)
    exact (hcreates _ _).trans (hstarts _ _)
  | startFinished id result =>
    show (startFinished now id result p).hostsKnown = p.hostsKnown
    unfold startFinished
    split
    · rfl
    · split <;> exact hostsKnown_update p _ _
  | createFinished key image result =>
    show (createFinished now key image result p).hostsKnown = p.hostsKnown
    unfold createFinished
    dsimp only
    split
    · split <;> split <;> rfl
    · split
      · rfl
      · split
        · exact hostsKnown_update _ _ _
        · rfl
  | _ => rfl

theorem hostsKnown_effect (now : Int) (op : Call) {p : Pool} (h : p.hostsKnown = true) : (effect cfg now op p).hostsKnown = true := by
  by_cases hop : ∃ started listed, op = .applyHosts started listed
  · obtain ⟨started, listed, rfl⟩ := hop
    rfl
  · rw [hostsKnown_effect_of_ne now p fun started listed heq => hop ⟨started, listed, heq⟩]
    exact h

theorem entry_of_listed {started now : Int} {listed : List Host} (hnodup : (listed.map (·.id)).Nodup) (p : Pool) {host : Host}
    (hmem : host ∈ listed) (hvalid : validID host.id = true) : ∃ h, (applyHosts cfg started now listed p).hosts.get host.id = some h := by
  unfold applyHosts
  rw [Table.get_filter, get_foldl_see started now hnodup]
  have hfind : ∃ found, listed.find? (fun other => validID other.id && other.id = host.id) = some found := by
    rw [← Option.isSome_iff_exists, List.find?_isSome]
    exact ⟨host, hmem, by simp [hvalid]⟩
  obtain ⟨other, hother⟩ := hfind
  rw [hother]
  refine ⟨_, Option.filter_eq_some_iff.mpr ⟨rfl, ?_⟩⟩
  have hother' := List.find?_some hother
  simp only [Bool.and_eq_true, decide_eq_true_eq] at hother'
  have hid : (listedEntry cfg started now other (p.hosts.get host.id)).id = host.id := by
    cases hget : p.hosts.get host.id with
    | none => exact (found_id cfg now other).trans hother'.2
    | some h =>
      have hkey : h.id = host.id := Table.key_of_get hget
      exact hkey
  simp only [keeps, Bool.or_eq_true, hid]
  exact Or.inl (Or.inl (List.any_eq_true.mpr ⟨host, hmem, by simp [hvalid]⟩))

theorem stopping_of_returnCandidates {now : Int} {p : Pool} {k : String} {h' : HostState}
    (hget : (returnCandidates cfg now p).2.hosts.get k = some h') (hphase : h'.phase = .stopping) :
    ∃ h, p.hosts.get k = some h ∧ (h.phase = .stopping ∨ ∃ reason, p.returnReason cfg now (p.baseHosts cfg) h = some (reason, true)) := by
  unfold returnCandidates at hget
  dsimp only at hget
  rw [get_each, get_returnIdle, Option.map_map, Option.map_eq_some_iff] at hget
  obtain ⟨h, hold, rfl⟩ := hget
  refine ⟨h, hold, ?_⟩
  dsimp only [Function.comp_apply] at hphase
  cases hreason : p.returnReason cfg now (p.baseHosts cfg) h with
  | none =>
    simp only [hreason, Option.elim_none] at hphase
    split at hphase
    · cases hphase
    · exact Or.inl hphase
  | some r =>
    obtain ⟨reason, stop⟩ := r
    cases stop with
    | true => exact Or.inr ⟨reason, rfl⟩
    | false =>
      simp only [hreason, Option.elim_some] at hphase
      split at hphase <;> cases hphase

/-! ### Changes beside the pool -/

theorem Eased.sighted {id : String} (h : Eased (ours cfg) w w') (hsighted : Sighted cfg w id) : Sighted cfg w' id := by
  unfold Sighted
  rw [h.pool]
  exact hsighted.imp_left h.quiet

theorem Eased.watched (h : Eased (ours cfg) w w') (hwatched : Watched cfg w) : Watched cfg w' where
  clock := lt_of_lt_of_le hwatched.clock h.clock
  known hknown id := h.sighted (hwatched.known (h.pool ▸ hknown) id)
  addressed := h.pool ▸ hwatched.addressed
  stopping id r hget hphase := (hwatched.stopping id r (h.pool ▸ hget) hphase).imp h.isGone fun hquiet => ⟨h.quiet hquiet.1, hquiet.2⟩

theorem Eased.stays (h : Eased (ours cfg) w w') (horderly : Orderly (ours cfg) cfg w') (hwatched : Watched cfg w) : Stays cfg w w' where
  orderly := horderly
  watched := h.watched hwatched
  used := h.used
  known hknown := by rw [h.pool]; exact hknown
  sighted _ := h.sighted

/-! ### The sections -/

section

variable (horderly : Orderly (ours cfg) cfg w) (hwatched : Watched cfg w) (hfit : Fit (ours cfg) cfg w op)
  (hhosts : ∀ started listed, op = .applyHosts started listed → HostsFit (ours cfg) cfg w started listed)
  (hinformed : Informed cfg w op) (commits : List (String × Int × String))

include horderly hfit hhosts in
theorem sighted_locked {id : String} (hsighted : Sighted cfg w id) :
    Sighted cfg { w with pool := effect cfg w.clock op w.pool, commits } id := by
  rcases hsighted with hquiet | ⟨h, hget⟩
  · exact Or.inl hquiet
  · rcases entry_cases horderly hfit hhosts hget with ⟨h', hget', -⟩ | hgone | ⟨-, hnone⟩
    · exact Or.inr ⟨h', hget'⟩
    · exact Or.inl (Gone.quiet (w := w) hgone)
    · refine Or.inl fun m hm => ?_
      rw [hnone] at hm
      cases hm

include hwatched hfit hinformed in
theorem addressed_locked {id : String} {h' : HostState} (hentry : EntryChange cfg w.clock op (w.pool.hosts.get id) (some h')) (hid : h'.id = id)
    (hname : cfg.facts.canCreate = true → isPlaceholder id = false) : h'.view.address ≠ "" := by
  have hnew : HostNew cfg w.clock op h' → h'.view.address ≠ "" := by
    intro hnew
    cases hnew with
    | found hmem hvalid =>
      have haddress := (hinformed.valid _ hmem).2
      unfold found
      split <;> exact haddress
    | creating seq =>
      have hplaceholder := hname hfit
      rw [← hid, show (creatingHost w.clock seq).id = placeholder seq from rfl, isPlaceholder_placeholder] at hplaceholder
      cases hplaceholder
    | created hvalid => exact hinformed
  generalize hold : w.pool.hosts.get id = old at hentry
  cases hentry with
  | entered hentered => exact hnew hentered
  | renewed _ hentered => exact hnew hentered
  | moved hmove =>
    have hkept := hwatched.addressed id _ hold hname
    cases hmove with
    | relisted hmem _ hview | halted hmem _ _ _ _ _ hview | revived hmem _ _ hview =>
      rw [hview]
      exact (hinformed.valid _ hmem).2
    | adopted _ hview =>
      rw [hview]
      exact hinformed
    | calm hview | heard hview | readied _ hview | failed _ hview | drained _ hview | held _ _ hview | released _ hview
    | committed hview | leaving _ hview | discarded _ hview | restored _ hview | stopped hview | starting _ hview
    | startFailed hview | started hview =>
      rw [hview]
      exact hkept

include hwatched hfit in
theorem stopping_locked {id : String} {h' : HostState} (hentry : EntryChange cfg w.clock op (w.pool.hosts.get id) (some h'))
    (hleaving : op = .returnCandidates → ∀ h, w.pool.hosts.get id = some h → h.view.phase ≠ .stopping → Quiet (ours cfg) w id)
    (hphase : h'.view.phase = .stopping) : Gone w id ∨ Quiet (ours cfg) w id ∧ h'.view.reserved = .empty := by
  have hnew : HostNew cfg w.clock op h' → False := by
    intro hnew
    cases hnew with
    | found hmem hvalid =>
      revert hphase
      unfold found
      split <;> intro hphase <;> cases hphase
    | creating seq => cases hphase
    | created hvalid => cases hphase
  generalize hold : w.pool.hosts.get id = old at hentry
  cases hentry with
  | entered hentered => exact (hnew hentered).elim
  | renewed _ hentered => exact (hnew hentered).elim
  | moved hmove =>
    rename_i h
    have hkept : h.view.phase = .stopping → _ := hwatched.stopping id h hold
    cases hmove with
    | calm hview | heard hview | relisted _ _ hview | adopted _ hview =>
      rw [hview] at hphase ⊢
      exact hkept hphase
    | released _ hview | committed hview =>
      rw [hview] at hphase ⊢
      exact (hkept hphase).imp_right fun hquiet => ⟨hquiet.1, erase_empty _ hquiet.2⟩
    | held htakes _ hview =>
      rw [hview] at hphase
      rw [show h.view.phase = .ready from (takesLeases_spec htakes).1] at hphase
      cases hphase
    | leaving hreason hview =>
      refine Or.inr ⟨hleaving rfl h hold ?_, ?_⟩
      · intro hstopping
        rcases up_of_returnReason hreason with hup | hup | hup <;> rw [show h.view.phase = h.phase from rfl, hup] at hstopping <;> cases hstopping
      · rw [hview] at hphase ⊢
        rename_i p base reason stop
        cases stop with
        | false => cases hphase
        | true =>
          rcases returnReason_cases hreason with ⟨-, hnostop, -⟩ | ⟨-, hnostop, -⟩ | ⟨-, -, -, -, hreserved, -⟩
          · cases hnostop
          · cases hnostop
          · exact hreserved
    | restored _ hview =>
      rw [hview] at hphase
      obtain ⟨c, sure, -, hprevious, hclaimed⟩ := hfit
      exact absurd (hprevious.trans hphase) hclaimed.1.staying
    | halted _ _ _ _ _ _ hview | revived _ _ _ hview | readied _ hview | failed _ hview | drained _ hview | discarded _ hview
    | stopped hview | starting _ hview | startFailed hview | started hview =>
      rw [hview] at hphase
      cases hphase

end

theorem stays_running {m : Machine} {slot : Int} {request : StartRequest} {host : Host} (horderly : Orderly (ours cfg) cfg w)
    (hwatched : Watched cfg w) (hget : w.machines.get m.host.id = some m) (hfit : Fit (ours cfg) cfg w (.agentStart host slot request))
    (hid : host.id = m.host.id) : Stays cfg w (w.running m (World.containerOf w.clock slot request)) := by
  obtain ⟨lease, hlease, hdeadline, hheld⟩ := hfit
  rw [hid] at hheld
  obtain ⟨entry, hentry, hslot⟩ := entry_running hget hheld
  have hquiet : ∀ {id}, id ≠ m.host.id → Quiet (ours cfg) w id → Quiet (ours cfg) (w.running m (World.containerOf w.clock slot request)) id :=
    fun hne hquiet => quiet_running hget hquiet fun heq => absurd heq hne
  have hsighted : ∀ id, Sighted cfg w id → Sighted cfg (w.running m (World.containerOf w.clock slot request)) id := by
    intro id hsighted
    by_cases heq : id = m.host.id
    · exact Or.inr ⟨entry, heq ▸ hentry⟩
    · exact hsighted.imp_left (hquiet heq)
  refine ⟨orderly_running hget horderly hheld hlease hdeadline, ?_, fun _ => id, id, hsighted⟩
  refine ⟨hwatched.clock, fun hknown id => hsighted id (hwatched.known hknown id), hwatched.addressed, fun id r hr hphase => ?_⟩
  rcases hwatched.stopping id r hr hphase with hgone | ⟨hrun, hreserved⟩
  · exact Or.inl (gone_running hget hgone)
  · -- a host with a reservation is not being stopped
    have hne : id ≠ m.host.id := by
      rintro rfl
      have heq : entry = r := Option.some.inj (hentry.symm.trans hr)
      rw [heq, hreserved] at hslot
      exact List.not_mem_nil hslot
    exact Or.inr ⟨hquiet hne hrun, hreserved⟩

theorem stays_exec (hgrace : 0 ≤ cfg.unreachableGrace) {choice : Choice} {answer : op.Ans} (horderly : Orderly (ours cfg) cfg w)
    (hwatched : Watched cfg w) (hfit : Fit (ours cfg) cfg w op) (hallowed : Allowed (ours cfg) cfg w op choice) (hexact : Exact cfg w op choice)
    (hinformed : Informed cfg w op) (hexec : World.exec cfg op choice w = some (answer, w')) : Stays cfg w w' := by
  have horderly' := (exec_kept hgrace horderly hfit hallowed hexec).1
  cases exec_executed hexec with
  | locked _ _ commits =>
    have hhosts : ∀ started listed, op = .applyHosts started listed → HostsFit (ours cfg) cfg w started listed := by
      rintro started listed rfl
      exact hallowed
    have hsighted : ∀ id, Sighted cfg w id → Sighted cfg { w with pool := effect cfg w.clock op w.pool, commits } id := fun id =>
      sighted_locked horderly hfit hhosts commits
    have hentry := fun id => effect_entry cfg w.clock op w.pool (fun started listed hop => (hhosts started listed hop).nodup) id
    refine ⟨horderly', ⟨hwatched.clock, fun hknown id => ?_, fun id h' hget hname => ?_, fun id h' hget hphase => ?_⟩,
      fun _ => id, hostsKnown_effect w.clock op, hsighted⟩
    · by_cases hbefore : w.pool.hostsKnown = true
      · exact hsighted id (hwatched.known hbefore id)
      · -- only a host listing makes the hosts known, and it covers them all
        have hop : ∃ started listed, op = .applyHosts started listed := by
          by_contra hnone
          exact hbefore ((hostsKnown_effect_of_ne w.clock w.pool fun started listed heq => hnone ⟨started, listed, heq⟩).symm.trans hknown)
        obtain ⟨started, listed, rfl⟩ := hop
        rcases hinformed.hosts id with ⟨host, hmem, rfl⟩ | hbefore
        · exact Or.inr (entry_of_listed (hhosts started listed rfl).nodup w.pool hmem (hinformed.valid host hmem).1)
        · exact hsighted id hbefore
    · have hkey : h'.id = id := Table.key_of_get hget
      exact addressed_locked hwatched hfit hinformed (hget ▸ hentry id) hkey hname
    · refine stopping_locked hwatched hfit (hget ▸ hentry id) ?_ hphase
      rintro rfl h hold hnot
      obtain ⟨h₁, hold₁, hstopping | hreason⟩ := stopping_of_returnCandidates hget hphase
      · rw [hold, Option.some.injEq] at hold₁
        exact absurd (hold₁ ▸ hstopping) hnot
      · have hkey : h₁.id = id := Table.key_of_get hold₁
        exact hkey ▸ hexact h₁ (Table.mem_of_get hold₁) hreason
  | made hmakes hfresh => exact (eased_made hfresh).stays horderly' hwatched
  | deleted id => exact (eased_deleted id).stays horderly' hwatched
  | changed hget hmove =>
    by_cases hop : ∃ host slot request, op = .agentStart host slot request
    · obtain ⟨host, slot, request, rfl⟩ := hop
      cases hmove with
      | started hid => exact stays_running horderly hwatched hget hfit hid
    · exact (eased_move hget hmove fun host slot request heq => hop ⟨host, slot, request, heq⟩).stays horderly' hwatched

end Pool

end RunnerYard
