import RunnerYard.Pool.Keeping

/-!
# The pool's goroutines

Every goroutine keeps to its part: a launch touches only the slot it has reserved, the maintenance loop returns only hosts it has claimed, and the goroutines it starts work on the one host they were started for. `lawful` puts the parts together, so that whatever interleaving of them runs, every call is made under its `Fit`.
-/

namespace RunnerYard

open Interaction Prog

namespace Pool

section

variable (L : Liveness) (cfg : Config)

def Credential (w : World) : Job → Prop
  | .launch lease _ => lease ∈ w.leases
  | .create key _ => isPlaceholder key = true ∧ cfg.facts.canCreate = true
  | .start id => Starting w id
  | _ => True

def Duty (w : World) (job : Job) : Call → Prop
  | .release id slot | .holdSuspect id slot _ | .commit id slot _ _ => ∃ lease grow, job = .launch lease grow ∧ Held w id slot lease.id
  | .restorePhase _ _ | .hostStoppedAt _ => job = .maintain
  | .startFinished id _ => job = .start id
  | _ => True

def Compatible (w : World) : Job → Job → Prop
  | .launch lease _, .launch other _ => lease.id ≠ other.id
  | .start id, .start other => id = other → Gone w id
  | .maintain, .maintain => False
  | _, _ => True

structure Rely (job : Job) (w w' : World) : Prop where
  leases : ∀ lease ∈ w.leases, lease ∈ w'.leases
  used : ∀ id ∈ w.used, id ∈ w'.used
  gone : ∀ id, Gone w id → Gone w' id
  held : ∀ lease grow, job = .launch lease grow → ∀ id slot, Held w id slot lease.id → Held w' id slot lease.id
  claimed : job = .maintain → ∀ c sure, Claimed L w sure c → Claimed L w' sure c
  calm : ∀ id, Calm L w id → Calm L w' id
  starting : ∀ id, job = .start id → Starting w id → Starting w' id

def custody : CrewOutline Call.Ans Job Outcome Choice World where
  allowed op choice w := Allowed L cfg w op choice
  inv := Orderly L cfg
  compat := Compatible
  guard job op w := Fit L cfg w op ∧ Credential cfg w job ∧ Duty w job op
  rely := Rely L
  post _ _ _ := True

end

def Call.plain : Call → Bool
  | .reserve _ | .release _ _ | .commit _ _ _ _ | .holdSuspect _ _ _ | .restorePhase _ _ | .hostStoppedAt _ | .forget _ | .grow
  | .startFinished _ _ | .createFinished _ _ _ | .createHost _ | .deleteHost _ | .stopHost _ | .agentStart _ _ _ => false
  | _ => true

variable {L : Liveness} {cfg : Config} {w w' w'' : World} {job : Job} {op : Call}

theorem Rely.refl (job : Job) (w : World) : Rely L job w w where
  leases _ := id
  used _ := id
  gone _ := id
  held _ _ _ _ _ := id
  claimed _ _ _ := id
  calm _ := id
  starting _ _ := id

theorem Rely.trans (h : Rely L job w w') (h' : Rely L job w' w'') : Rely L job w w'' where
  leases lease hlease := h'.leases lease (h.leases lease hlease)
  used id hid := h'.used id (h.used id hid)
  gone id hgone := h'.gone id (h.gone id hgone)
  held lease grow hjob id slot hheld := h'.held lease grow hjob id slot (h.held lease grow hjob id slot hheld)
  claimed hjob c sure hclaimed := h'.claimed hjob c sure (h.claimed hjob c sure hclaimed)
  calm id hcalm := h'.calm id (h.calm id hcalm)
  starting id hjob hstarting := h'.starting id hjob (h.starting id hjob hstarting)

theorem Eased.rely (h : Eased L w w') : Rely L job w w' where
  leases := h.leases
  used := h.used
  gone _ := h.isGone
  held _ _ _ _ _ := h.held
  claimed _ _ _ := h.claimed
  calm _ := h.calm
  starting _ _ := h.starting

theorem Compatible.symm {k k' : Job} (h : Compatible w k k') : Compatible w k' k := by
  cases k with
  | launch lease grow =>
    cases k' with
    | launch other grow' => exact fun heq => h heq.symm
    | _ => trivial
  | start id =>
    cases k' with
    | start other => exact fun heq => heq ▸ h heq.symm
    | _ => trivial
  | maintain =>
    cases k' with
    | maintain => exact h
    | _ => trivial
  | _ => cases k' <;> trivial

theorem Compatible.mono {k k' : Job} (h : Compatible w k k') (hgone : ∀ id, Gone w id → Gone w' id) : Compatible w' k k' := by
  cases k with
  | start id =>
    cases k' with
    | start other => exact fun heq => hgone id (h heq)
    | _ => trivial
  | launch lease grow => cases k' <;> exact h
  | maintain => cases k' <;> exact h
  | _ => cases k' <;> trivial

section

variable (hgrace : 0 ≤ cfg.unreachableGrace)

include hgrace

theorem makes_kept {answer : op.Ans} (h : (custody L cfg).Makes (crew cfg) job op w answer w') :
    Orderly L cfg w' ∧ Undisturbed L op w w' := by
  obtain ⟨choice, hallowed, hexec⟩ := h.exec
  exact exec_kept hgrace h.inv h.guard.1 hallowed hexec

theorem makes_rely {answer : op.Ans} {other : Job} (h : (custody L cfg).Makes (crew cfg) job op w answer w')
    (hcompat : Compatible w job other) : Rely L other w w' := by
  have hkept := (makes_kept hgrace h).2
  obtain ⟨-, -, hduty⟩ := h.guard
  refine ⟨hkept.leases, hkept.used, hkept.gone, ?_, ?_, hkept.calm, ?_⟩
  · rintro lease grow rfl id slot hheld
    by_cases hfrees : op.frees = some (id, slot)
    · -- two launches never hold one slot of a host that exists
      have hown : ∃ mine grow', job = .launch mine grow' ∧ Held w id slot mine.id := by
        cases op with
        | release | holdSuspect | commit =>
          simp only [Call.frees, Option.some.injEq, Prod.mk.injEq] at hfrees
          obtain ⟨rfl, rfl⟩ := hfrees
          exact hduty
        | _ => simp [Call.frees] at hfrees
      obtain ⟨mine, grow', rfl, hmine⟩ := hown
      rcases hheld with hgone | ⟨r, hr, hslot⟩
      · exact Or.inl (hkept.gone id hgone)
      rcases hmine with hgone | ⟨r', hr', hslot'⟩
      · exact Or.inl (hkept.gone id hgone)
      rw [hr, Option.some.injEq] at hr'
      subst hr'
      rw [hslot, Option.some.injEq, Prod.mk.injEq] at hslot'
      exact absurd hslot'.2.symm hcompat
    · exact hkept.held id slot lease.id hfrees hheld
  · rintro rfl c sure hclaimed
    refine hkept.claimed c sure (fun hreturns => ?_) hclaimed
    have hmaintain : job = .maintain := by
      cases op with
      | restorePhase | hostStoppedAt => exact hduty
      | _ => simp [Call.returns] at hreturns
    subst hmaintain
    exact hcompat
  · rintro id rfl hstarting
    by_cases hop : ∃ result, op = .startFinished id result
    · obtain ⟨result, rfl⟩ := hop
      have hjob : job = .start id := hduty
      subst hjob
      exact Or.inl (hkept.gone id (hcompat rfl))
    · exact hkept.starting id (fun result heq => hop ⟨result, heq⟩) hstarting

/-! ### Rules for the programs -/

abbrev logicOf (L : Liveness) (cfg : Config) (job : Job) : Logic Call.Ans World := (custody L cfg).logic (crew cfg) job

theorem safe_ask {post : op.Ans → World → Prop} (hfit : Fit L cfg w op) (hcredential : Credential cfg w job) (hduty : Duty w job op)
    (hpost : ∀ answer w' w'', (custody L cfg).Makes (crew cfg) job op w answer w' → Undisturbed L op w w' → Rely L job w' w'' →
      Orderly L cfg w'' → post answer w'') : Safe (logicOf L cfg job) (ask op) post w := by
  refine safe_perform ⟨hfit, hcredential, hduty⟩ fun answer w' hstep w'' hrely => ?_
  exact hpost answer w' w'' hstep.1 (makes_kept hgrace hstep.1).2 hrely.1 hrely.2

omit hgrace in
theorem plain_fit (h : op.plain = true) : Fit L cfg w op ∧ Duty w job op ∧ op.frees = none ∧ op.returns = none ∧
    ∀ id result, op ≠ .startFinished id result := by
  cases op <;> first | exact ⟨trivial, trivial, rfl, rfl, fun _ _ heq => by cases heq⟩ | cases h

structure Stable (L : Liveness) (cfg : Config) (job : Job) (A : World → Prop) : Prop where
  credential : ∀ {w}, A w → Credential cfg w job
  own : ∀ {op w w'}, op.plain = true → Undisturbed L op w w' → A w → A w'
  others : ∀ {w w'}, Rely L job w w' → A w → A w'

theorem safe_plain {α : Type} {p : Prog Call.Ans α} (hp : Makes Call.plain p) {A : World → Prop} (hA : Stable L cfg job A)
    (hw : A w) : Safe (logicOf L cfg job) p (fun _ => A) w := by
  refine hp.safe A hw (fun op w hop hw => ?_) fun op w answer w' w'' hop hw hstep hrely => ?_
  · have hfit : Fit L cfg w op ∧ Duty w job op ∧ _ := plain_fit hop
    exact ⟨hfit.1, hA.credential hw, hfit.2.1⟩
  · exact hA.others hrely.1 (hA.own hop (makes_kept hgrace hstep.1).2 hw)

end

/-! ### Programs of plain calls -/

theorem plain_refreshHosts (force : Bool) : Makes Call.plain (refreshHosts force) :=
  (makes_refreshHosts force).mono fun op hop => by cases op <;> first | rfl | cases hop

theorem plain_probe : Makes Call.plain probe := makes_probe.mono fun op hop => by cases op <;> first | rfl | cases hop

theorem plain_listSlots (hosts : List Host) : Makes Call.plain (listSlots hosts) :=
  (makes_listSlots hosts).mono fun op hop => by cases op <;> first | rfl | cases hop

theorem plain_inventory (cfg : Config) : Makes Call.plain (inventory cfg) :=
  (makes_inventory cfg).mono fun op hop => by cases op <;> first | rfl | cases hop

theorem plain_destroy (cfg : Config) (workerID : String) : Makes Call.plain (destroy cfg workerID) :=
  (makes_destroy cfg workerID).mono fun op hop => by cases op <;> first | rfl | cases hop

theorem plain_followTag (cfg : Config) : Makes Call.plain (followTag cfg) :=
  (makes_followTag cfg).mono fun op hop => by cases op <;> first | rfl | cases hop

theorem plain_readLateStart (cfg : Config) (host : Host) (slot : Int) (lease : Lease) (answered : Bool) (reads : Nat) :
    Makes Call.plain (readLateStart cfg host slot lease answered reads) :=
  (makes_readLateStart cfg host slot lease answered reads).mono fun op hop => by cases op <;> first | rfl | cases hop

theorem plain_full (cfg : Config) (grow : Bool) : Makes Call.plain (full cfg grow) :=
  (makes_full cfg grow).mono fun op hop => by
    rw [Bool.and_eq_true, decide_eq_true_eq] at hop
    rw [hop.1]
    rfl

section

variable (hgrace : 0 ≤ cfg.unreachableGrace)

include hgrace

/-! ### A launch -/

omit hgrace in
theorem stable_launch (lease : Lease) (grow : Bool) : Stable L cfg (.launch lease grow) fun w => lease ∈ w.leases where
  credential := id
  own _ hkept := hkept.leases lease
  others hrely := hrely.leases lease

omit hgrace in
theorem stable_held (lease : Lease) (grow : Bool) (id : String) (slot : Int) :
    Stable L cfg (.launch lease grow) fun w => lease ∈ w.leases ∧ Held w id slot lease.id where
  credential := And.left
  own {op w w'} hop hkept hw := by
    have hplain : Fit L cfg w op ∧ Duty w (.launch lease grow) op ∧ op.frees = none ∧ _ := plain_fit hop
    exact ⟨hkept.leases lease hw.1, hkept.held id slot lease.id (by rw [hplain.2.2.1]; simp) hw.2⟩
  others hrely hw := ⟨hrely.leases lease hw.1, hrely.held lease grow rfl id slot hw.2⟩

omit hgrace in
theorem held_of_reserve {lease : Lease} {grow : Bool} {host : Host} {slot : Int} {image : String}
    (h : (custody L cfg).Makes (crew cfg) (.launch lease grow) (.reserve lease.id) w (some (host, slot, image)) w') :
    Held w' host.id slot lease.id := by
  obtain ⟨choice, -, hexec⟩ := h.exec
  simp only [crew, World.exec, World.locked, Option.some.injEq, Prod.mk.injEq] at hexec
  obtain ⟨hanswer, rfl⟩ := hexec
  obtain ⟨r, hr, hhost, htakes, hfree, hpool⟩ := reserve_spec hanswer
  have hname : host.id = r.id := by
    rw [← hhost]
    exact ((h.inv.named r.id r hr).known (by
      show r.phase ≠ .creating
      rw [(takesLeases_spec htakes).1]
      simp)).1
  refine Or.inr ⟨((hold slot lease.id r).withID r.id), ?_, Table.get_put_self ..⟩
  rw [hpool, get_update, if_pos hname, hr]
  rfl

theorem safe_frees {lease : Lease} {grow : Bool} {id : String} {slot : Int} (hfrees : op.frees = some (id, slot))
    (hw : lease ∈ w.leases ∧ Held w id slot lease.id) :
    Safe (logicOf L cfg (.launch lease grow)) (ask op) (fun _ w => lease ∈ w.leases) w := by
  have hop : Fit L cfg w op ∧ Duty w (.launch lease grow) op := by
    cases op with
    | release | holdSuspect | commit =>
      simp only [Call.frees, Option.some.injEq, Prod.mk.injEq] at hfrees
      obtain ⟨rfl, rfl⟩ := hfrees
      exact ⟨trivial, lease, grow, rfl, hw.2⟩
    | _ => simp [Call.frees] at hfrees
  exact safe_ask hgrace hop.1 hw.1 hop.2 fun answer w' w'' _ hkept hrely _ => hrely.leases lease (hkept.leases lease hw.1)

theorem safe_unconfirmed {lease : Lease} {grow : Bool} {host : Host} {slot : Int} (err : Err)
    (hw : lease ∈ w.leases ∧ Held w host.id slot lease.id) :
    Safe (logicOf L cfg (.launch lease grow)) (unconfirmed cfg host slot lease err) (fun _ _ => True) w := by
  refine (safe_plain hgrace (plain_readLateStart cfg host slot lease _ _) (stable_held lease grow host.id slot) hw).bind fun late w hw => ?_
  cases late with
  | some late => exact (safe_frees hgrace rfl hw).bind fun _ _ _ => trivial
  | none =>
    refine (safe_plain hgrace (makes_ask rfl) (stable_held lease grow host.id slot) hw).bind fun now w hw => ?_
    exact (safe_frees hgrace rfl hw).bind fun _ _ _ => trivial

theorem safe_attempts {lease : Lease} {grow : Bool} (left : Nat) (hw : lease ∈ w.leases) :
    Safe (logicOf L cfg (.launch lease grow)) (attempts cfg lease grow left) (fun _ _ => True) w := by
  have hfull : ∀ {w}, lease ∈ w.leases → Safe (logicOf L cfg (.launch lease grow)) (full cfg grow) (fun _ _ => True) w := fun hw =>
    (safe_plain hgrace (plain_full cfg grow) (stable_launch lease grow) hw).mono fun _ _ _ => trivial
  -- the induction is on the attempts left; an attempt that ends in another one has let go of its slot
  induction left generalizing w with
  | zero => exact hfull hw
  | succ left ih =>
    refine Safe.bind (M := fun answer w => lease ∈ w.leases ∧ ∀ host slot image, answer = some (host, slot, image) →
      Held w host.id slot lease.id) (safe_ask hgrace ⟨lease, hw, rfl⟩ hw trivial ?_) fun answer w hw => ?_
    · rintro answer w' w'' hmakes hkept hrely -
      refine ⟨hrely.leases lease (hkept.leases lease hw), ?_⟩
      rintro host slot image rfl
      exact hrely.held lease grow rfl host.id slot (held_of_reserve hmakes)
    match answer with
    | none => exact hfull hw.1
    | some (host, slot, image) =>
      have hheld := hw.2 host slot image rfl
      refine Safe.bind (M := fun _ w => lease ∈ w.leases ∧ Held w host.id slot lease.id)
        (safe_ask hgrace ⟨lease, hw.1, rfl, hheld⟩ hw.1 trivial ?_) fun result w hw => ?_
      · rintro answer w' w'' - hkept hrely -
        exact ⟨hrely.leases lease (hkept.leases lease hw.1),
          hrely.held lease grow rfl host.id slot (hkept.held host.id slot lease.id (by simp [Call.frees]) hheld)⟩
      have hretry : ∀ {op : Call} {p : Prog Call.Ans (Except Err Worker)}, op.plain = true →
          (∀ {w}, lease ∈ w.leases → Safe (logicOf L cfg (.launch lease grow)) p (fun _ _ => True) w) →
          Safe (logicOf L cfg (.launch lease grow)) (do ask (.release host.id slot); let _ ← ask op; p) (fun _ _ => True) w :=
        fun hop hp => (safe_frees hgrace rfl hw).bind fun _ w hw =>
          (safe_plain hgrace (makes_ask hop) (stable_launch lease grow) hw).bind fun _ w hw => hp hw
      cases result with
      | ok started => exact (safe_frees hgrace rfl hw).bind fun _ _ _ => trivial
      | error err =>
        dsimp only
        split
        · exact hretry rfl ih
        split
        · exact hretry rfl ih
        split
        · exact hretry rfl ih
        split
        · exact (safe_frees hgrace rfl hw).bind fun _ _ _ => trivial
        · exact safe_unconfirmed hgrace err hw

theorem safe_launch {lease : Lease} {grow : Bool} (hw : lease ∈ w.leases) :
    Safe (logicOf L cfg (.launch lease grow)) (Job.program cfg (.launch lease grow)) (fun _ _ => True) w := by
  refine Safe.bind (M := fun _ _ => True) ?_ fun _ _ _ => trivial
  unfold launch
  split
  · trivial
  · exact safe_attempts hgrace _ hw

/-! ### A maintenance pass -/

omit hgrace in
theorem claim_of_candidate {c : Candidate} {h h' : HostState} (hclaimed : ClaimedFrom cfg w.clock w.pool c h h') (hid : c.host.id = h.id)
    (htidy : Tidy L cfg w h.id h.view) : Claim L w c (!c.asked) h'.view := by
  have hprevious : h.view.phase = c.previous := hclaimed.previous
  rw [hclaimed.view]
  refine ⟨?_, fun hready => htidy.ready (hprevious.trans hready), ?_, fun hstopped => ?_, ?_⟩
  · dsimp only
    split
    · exact Or.inr rfl
    · exact Or.inl rfl
  · intro hsilent
    rcases hclaimed.why with ⟨base, hreason⟩ | ⟨hstopped, -⟩
    · rcases returnReason_cases hreason with ⟨-, -, -, -, hready⟩ | ⟨hreason', -, hphase, -⟩ | ⟨-, -, -, -, hreserved, -⟩
      · exact htidy.unready hready
      · refine absurd ⟨?_, hreason'⟩ hsilent
        rw [← hclaimed.previous]
        rcases hphase with hphase | hphase | hphase <;> rw [hphase] <;> simp
      · exact hreserved
    · exact (htidy.down (Or.inl (hprevious.trans hstopped))).2
  · rw [hid]
    exact (htidy.down (Or.inl (hprevious.trans hstopped))).1
  · intro hasked htimed
    rw [hid]
    have hnone : h.view.reserved = .empty → ∀ r ∈ h.view.reserved.rows, L.timed ∧ ∃ lease ∈ w.leases, lease.id = r.2 ∧ lease.deadline < w.clock := by
      intro hempty r hr
      rw [hempty] at hr
      exact absurd hr List.not_mem_nil
    rcases hclaimed.why with ⟨base, hreason⟩ | ⟨hstopped, -⟩
    · rcases returnReason_cases hreason with ⟨-, -, -, hown, hready⟩ | ⟨hreason', -, hphase, hlong⟩ | ⟨hboot, hsilent, hphase, -⟩
      · exact ⟨htidy.own hown hready, hnone (htidy.unready hready)⟩
      · -- everything that could count has run out by now
        have hsilent : c.silent := by
          refine ⟨?_, hreason'⟩
          rw [← hclaimed.previous]
          rcases hphase with hphase | hphase | hphase <;> rw [hphase] <;> simp
        have hhorizon : horizon cfg h.view < w.clock := by
          unfold horizon
          have hheard : h.view.heardOf = heardOf h := rfl
          omega
        refine ⟨fun m hm c hc => ?_, fun r hr => ?_⟩
        · by_contra hlive
          have hlive' : L.live w.clock m.up c = true := by simpa using hlive
          have hbound := htidy.containers (htimed hsilent) m hm c hc hlive'
          have hlate := L.deadline (htimed hsilent) hlive'
          omega
        · obtain ⟨lease, hlease, hleaseID, hbound⟩ := htidy.leases r hr
          exact ⟨htimed hsilent, lease, hlease, hleaseID, lt_of_le_of_lt (hbound (htimed hsilent)) hhorizon⟩
      · have hask : c.asked = true := by
          have hup : c.previous ≠ .stopped := by
            rw [← hclaimed.previous]
            rcases hphase with hphase | hphase <;> rw [hphase] <;> simp
          simp [Candidate.asked, hup, hboot, hsilent]
        rw [hask] at hasked
        cases hasked
    · have hdown := htidy.down (Or.inl (hprevious.trans hstopped))
      exact ⟨hdown.1, hnone hdown.2⟩

omit hgrace in
theorem sane_of_candidate {c : Candidate} {p : Pool} {now : Int} {h h' : HostState} (hclaimed : ClaimedFrom cfg now p c h h') : c.Sane := by
  have hphase : c.previous = .stopped ∨ c.previous = .booting ∨ c.previous = .ready ∨ c.previous = .draining := by
    rcases hclaimed.why with ⟨base, hreason⟩ | ⟨hstopped, -⟩
    · rw [← hclaimed.previous]
      exact Or.inr (up_of_returnReason hreason)
    · exact Or.inl hstopped
  refine ⟨?_, ?_, ?_, ?_⟩
  · rcases hphase with h | h | h | h <;> rw [h] <;> simp
  · rcases hphase with h | h | h | h <;> rw [h] <;> simp
  · rcases hphase with h | h | h | h <;> rw [h] <;> simp
  · rintro hstop ⟨-, hunreachable⟩
    rcases hclaimed.why with ⟨base, hreason⟩ | ⟨-, hnostop⟩
    · rcases returnReason_cases hreason with ⟨-, hnostop, -⟩ | ⟨-, hnostop, -⟩ | ⟨-, hne, -⟩
      · rw [hstop] at hnostop
        cases hnostop
      · rw [hstop] at hnostop
        cases hnostop
      · exact hne hunreachable
    · rw [hstop] at hnostop
      cases hnostop

def Claims (L : Liveness) (rest : List Candidate) (w : World) : Prop :=
  (rest.Pairwise fun a b => a.host.id ≠ b.host.id) ∧ ∀ c ∈ rest, Claimed L w (!c.asked) c

omit hgrace in
theorem claims_of_candidates {candidates : List Candidate}
    (h : (custody L cfg).Makes (crew cfg) .maintain .returnCandidates w candidates w') : Claims L candidates w' := by
  obtain ⟨choice, -, hexec⟩ := h.exec
  simp only [crew, World.exec, World.locked, Option.some.injEq, Prod.mk.injEq] at hexec
  obtain ⟨rfl, rfl⟩ := hexec
  have hname : ∀ h₁ ∈ w.pool.hosts.rows, h₁.phase ≠ .creating → h₁.host.id = h₁.id := fun h₁ hmem hphase =>
    ((h.inv.named h₁.id h₁ (Table.get_of_mem hmem)).known hphase).1
  refine ⟨candidates_nodup hname, fun c hc => ?_⟩
  obtain ⟨h₁, h₂, hclaimed⟩ := candidates_spec hc
  have hid : c.host.id = h₁.id := by
    rw [← hclaimed.host]
    exact hname h₁ (Table.mem_of_get hclaimed.old) hclaimed.named
  refine ⟨sane_of_candidate hclaimed, ?_⟩
  rcases h.inv.tidy h₁.id h₁ hclaimed.old with hgone | htidy
  · exact Or.inl (hid ▸ hgone)
  · have hclaim := claim_of_candidate hclaimed hid htidy
    exact Or.inr ⟨h₂, hid ▸ hclaimed.new, hclaim.phase, hclaim.ready, hclaim.empty, hclaim.down, hclaim.sure⟩

omit hgrace in
theorem stable_claims (cfg : Config) (rest : List Candidate) : Stable L cfg .maintain (Claims L rest) where
  credential _ := trivial
  own {op w w'} hop hkept hw := by
    have hplain : Fit L cfg w op ∧ Duty w .maintain op ∧ op.frees = none ∧ op.returns = none ∧ _ := plain_fit hop
    exact ⟨hw.1, fun c hc => hkept.claimed c _ (by rw [hplain.2.2.2.1]; simp) (hw.2 c hc)⟩
  others hrely hw := ⟨hw.1, fun c hc => hrely.claimed rfl c _ (hw.2 c hc)⟩

/-- The round at one candidate: its claim, and those of the hosts after it. -/
structure Round (L : Liveness) (c : Candidate) (rest : List Candidate) (sure : Bool) (w : World) : Prop where
  mine : Claimed L w sure c
  others : Claims L rest w
  distinct : ∀ c' ∈ rest, c.host.id ≠ c'.host.id

omit hgrace in
theorem stable_round (cfg : Config) (c : Candidate) (rest : List Candidate) (sure : Bool) : Stable L cfg .maintain (Round L c rest sure) where
  credential _ := trivial
  own {op w w'} hop hkept hw := by
    have hplain : Fit L cfg w op ∧ Duty w .maintain op ∧ op.frees = none ∧ op.returns = none ∧ _ := plain_fit hop
    exact ⟨hkept.claimed c sure (by rw [hplain.2.2.2.1]; simp) hw.mine, (stable_claims cfg rest).own hop hkept hw.others, hw.distinct⟩
  others hrely hw := ⟨hrely.claimed rfl c sure hw.mine, (stable_claims cfg rest).others hrely hw.others, hw.distinct⟩

theorem safe_confirmEmpty {c : Candidate} {rest : List Candidate} (hw : Round L c rest (!c.asked) w) :
    Safe (logicOf L cfg .maintain) (confirmEmpty c) (fun empty w => Round L c rest empty w) w := by
  unfold confirmEmpty
  split
  · rename_i hasked
    rw [hasked, Bool.not_true] at hw
    have hsilent : ¬c.silent := by
      simp only [Candidate.asked, Bool.and_eq_true, decide_eq_true_eq] at hasked
      exact fun h => hasked.2 h.2
    refine Safe.bind (M := fun answer w => Round L c rest false w ∧ (answer = .ok [] → Round L c rest true w))
      (safe_ask hgrace trivial trivial trivial ?_) fun answer w hw => ?_
    · intro answer w' w'' hmakes hkept hrely _
      have hround : Round L c rest false w'' := (stable_round cfg c rest false).others hrely ((stable_round cfg c rest false).own rfl hkept hw)
      refine ⟨hround, ?_⟩
      rintro rfl
      -- the answer is accurate, so nothing runs on the host, and nothing is on its way
      have hempty : Round L c rest true w' := by
        obtain ⟨choice, hallowed, hexec⟩ := hmakes.exec
        cases choice <;> simp only [crew, World.exec, Option.some.injEq, Prod.mk.injEq, reduceCtorEq] at hexec
        obtain ⟨rfl, rfl⟩ := hexec
        refine ⟨⟨hw.mine.1, hw.mine.2.imp_right ?_⟩, hw.others, hw.distinct⟩
        rintro ⟨h, hget, hclaim⟩
        refine ⟨h, hget, { hclaim with sure := fun _ _ => ⟨fun m hm k hk => ?_, fun r hr => ?_⟩ }⟩
        · have hrows : m.containers.rows.map (fun k => k.slot.identity) = [] := List.nil_perm.mp (hallowed m hm)
          rw [List.map_eq_nil_iff.mp hrows] at hk
          exact absurd hk List.not_mem_nil
        · rw [hclaim.empty hsilent] at hr
          exact absurd hr List.not_mem_nil
      exact (stable_round cfg c rest true).others hrely hempty
    · rcases answer with failure | _ | ⟨slot, slots⟩
      · exact hw.1
      · exact hw.2 rfl
      · exact hw.1
  · rename_i hasked
    simp only [Bool.not_eq_true] at hasked
    rw [hasked] at hw
    exact hw

theorem safe_settles {c : Candidate} {rest : List Candidate} (hfit : Fit L cfg w op) (hduty : Duty w .maintain op)
    (hreturns : ∀ id, op.returns = some id → id = c.host.id) (hrest : Claims L rest w) (hdistinct : ∀ c' ∈ rest, c.host.id ≠ c'.host.id) :
    Safe (logicOf L cfg .maintain) (ask op) (fun _ w => Claims L rest w) w := by
  refine safe_ask hgrace hfit trivial hduty fun answer w' w'' _ hkept hrely _ => ?_
  refine (stable_claims cfg rest).others hrely ⟨hrest.1, fun c' hc' => hkept.claimed c' _ (fun heq => ?_) (hrest.2 c' hc')⟩
  exact hdistinct c' hc' (hreturns _ heq).symm

omit hgrace in
theorem gone_of_deleteHost {c : Candidate} (hclaimed : Claimed L w true c)
    (h : (custody L cfg).Makes (crew cfg) .maintain (.deleteHost c.host.id) w none w') : Gone w' c.host.id := by
  have hused : c.host.id ∈ w.used := by
    rcases hclaimed.2 with hgone | ⟨r, hr, hclaim⟩
    · exact hgone.2
    · refine ((h.inv.named _ r hr).known ?_).2
      rcases hclaim.phase with hphase | hphase <;> rw [hphase] <;> simp
  obtain ⟨choice, -, hexec⟩ := h.exec
  cases choice <;> simp only [crew, World.exec, Option.some.injEq, Prod.mk.injEq, reduceCtorEq] at hexec
  obtain ⟨rfl, rfl⟩ := hexec
  exact ⟨Table.get_erase_self .., hused⟩

theorem safe_returnHost {c : Candidate} {rest : List Candidate} (hw : Round L c rest (!c.asked) w) :
    Safe (logicOf L cfg .maintain) (returnHost c) (fun _ w => Claims L rest w) w := by
  refine (safe_confirmEmpty hgrace hw).bind fun empty w hw => ?_
  have hrestore : ∀ {w sure}, Round L c rest sure w →
      Safe (logicOf L cfg .maintain) (ask (.restorePhase c.host.id c.previous)) (fun _ w => Claims L rest w) w := fun {w sure} hw =>
    safe_settles hgrace ⟨c, sure, rfl, rfl, hw.mine⟩ rfl (by rintro id ⟨⟩; rfl) hw.others hw.distinct
  cases empty with
  | false => exact hrestore hw
  | true =>
    rw [if_pos rfl]
    have hrequest : ∀ {op : Call}, op.returns = none → Fit L cfg w op → Duty w .maintain op →
        Safe (logicOf L cfg .maintain) (ask op) (fun _ w => Round L c rest true w) w := fun {op} hreturns hfit hduty =>
      safe_ask hgrace hfit trivial hduty fun answer w' w'' _ hkept hrely _ => (stable_round cfg c rest true).others hrely
        ⟨hkept.claimed c true (by rw [hreturns]; simp) hw.mine,
          ⟨hw.others.1, fun c' hc' => hkept.claimed c' _ (by rw [hreturns]; simp) (hw.others.2 c' hc')⟩, hw.distinct⟩
    split
    · rename_i hstop
      have hfit : Fit L cfg w (.stopHost c.host.id) := ⟨c, rfl, hstop, hw.mine⟩
      refine (hrequest rfl hfit trivial).bind fun failure w hw => ?_
      cases failure with
      | some err => exact hrestore hw
      | none => exact safe_settles hgrace ⟨c, rfl, hstop, hw.mine⟩ rfl (by rintro id ⟨⟩; rfl) hw.others hw.distinct
    · refine Safe.bind (M := fun failure w => Round L c rest true w ∧ (failure = none → Gone w c.host.id))
        (safe_ask hgrace ⟨c, rfl, hw.mine⟩ trivial trivial ?_) fun failure w hw => ?_
      · intro failure w' w'' hmakes hkept hrely _
        refine ⟨(stable_round cfg c rest true).others hrely ⟨hkept.claimed c true (by simp [Call.returns]) hw.mine,
          ⟨hw.others.1, fun c' hc' => hkept.claimed c' _ (by simp [Call.returns]) (hw.others.2 c' hc')⟩, hw.distinct⟩, ?_⟩
        rintro rfl
        exact hrely.gone _ (gone_of_deleteHost hw.mine hmakes)
      cases failure with
      | some err => exact hrestore hw.1
      | none => exact safe_settles hgrace (hw.2 rfl) trivial (by rintro id ⟨⟩) hw.1.others hw.1.distinct

theorem safe_returnAll {candidates : List Candidate} (hw : Claims L candidates w) :
    Safe (logicOf L cfg .maintain) (returnAll candidates) (fun _ _ => True) w := by
  induction candidates generalizing w with
  | nil => trivial
  | cons c rest ih =>
    obtain ⟨hdistinct, hrest⟩ := List.pairwise_cons.mp hw.1
    have hround : Round L c rest (!c.asked) w :=
      ⟨hw.2 c List.mem_cons_self, ⟨hrest, fun c' hc' => hw.2 c' (List.mem_cons_of_mem _ hc')⟩, hdistinct⟩
    exact (safe_returnHost hgrace hround).bind fun _ w hw => ih hw

theorem safe_maintain : Safe (logicOf L cfg .maintain) (Job.program cfg .maintain) (fun _ _ => True) w := by
  have htrue : Stable L cfg .maintain fun _ => True := ⟨fun _ => trivial, fun _ _ _ => trivial, fun _ _ => trivial⟩
  have hplain : ∀ {α : Type} {p : Prog Call.Ans α} {w : World}, Makes Call.plain p →
      Safe (logicOf L cfg .maintain) p (fun _ _ => True) w := fun hp => safe_plain hgrace hp htrue trivial
  refine Safe.bind (M := fun _ _ => True) ?_ fun _ _ _ => trivial
  refine (hplain (plain_followTag cfg)).bind fun _ w _ => (hplain (plain_refreshHosts false)).bind fun _ w _ =>
    (hplain plain_probe).bind fun _ w _ => (hplain (makes_ask rfl)).bind fun hosts w _ => (hplain (plain_listSlots hosts)).bind fun _ w _ =>
    (hplain (makes_ask rfl)).bind fun _ w _ => Safe.bind (M := fun _ _ => True) ?_ fun _ w _ => ?_
  · unfold returnHosts
    split
    · refine Safe.bind (M := fun candidates w => Claims L candidates w) (safe_ask hgrace trivial trivial trivial ?_)
        fun candidates w hw => safe_returnAll hgrace hw
      intro candidates w' w'' hmakes _ hrely _
      exact (stable_claims cfg candidates).others hrely (claims_of_candidates hmakes)
    · trivial
  · split
    · rename_i hcreate
      refine Safe.bind (M := fun _ _ => True) (safe_ask hgrace ?_ trivial trivial fun _ _ _ _ _ _ _ => trivial) fun _ _ _ => trivial
      exact hcreate
    · trivial

/-! ### Creations and starts -/

omit hgrace in
theorem calm_of_createHost {image : String} {host : Host}
    (h : (custody L cfg).Makes (crew cfg) job (.createHost image) w (.ok host) w') : host.id ∈ w'.used ∧ Calm L w' host.id := by
  obtain ⟨choice, -, hexec⟩ := h.exec
  cases choice with
  | created answer made =>
    cases answer with
    | ok host' =>
      simp only [crew, World.exec, Option.map_eq_some_iff, Prod.mk.injEq, Except.ok.injEq] at hexec
      obtain ⟨w₁, hw₁, rfl, rfl⟩ := hexec
      unfold World.addMachine at hw₁
      split at hw₁
      · cases hw₁
      · rw [Option.some.injEq] at hw₁
        subst hw₁
        refine ⟨List.mem_cons_self, Or.inl fun m hm c hc => ?_⟩
        have hself : (w.machines.put { host := host', bornAt := w.clock }).get host'.id = some { host := host', bornAt := w.clock } :=
          Table.get_put_self ..
        rw [hself, Option.mem_some_iff] at hm
        subst hm
        exact absurd hc List.not_mem_nil
    | error err =>
      cases made <;> simp [crew, World.exec] at hexec
  | _ => simp [crew, World.exec] at hexec

theorem safe_create {key image : String} (hw : Credential cfg w (.create key image)) :
    Safe (logicOf L cfg (.create key image)) (Job.program cfg (.create key image)) (fun _ _ => True) w := by
  refine Safe.bind (M := fun _ _ => True) ?_ fun _ _ _ => trivial
  refine Safe.bind (M := fun result w => ∀ host, result = .ok host → host.id ∈ w.used ∧ Calm L w host.id)
    (safe_ask hgrace hw.2 hw trivial ?_) fun result w hresult => ?_
  · rintro result w' w'' hmakes - hrely - host rfl
    obtain ⟨hused, hcalm⟩ := calm_of_createHost hmakes
    exact ⟨hrely.used _ hused, hrely.calm _ hcalm⟩
  · exact safe_ask hgrace ⟨hw.2, hw.1, hresult⟩ hw trivial fun _ _ _ _ _ _ _ => trivial

theorem safe_start {id : String} (hw : Starting w id) :
    Safe (logicOf L cfg (.start id)) (Job.program cfg (.start id)) (fun _ _ => True) w := by
  refine Safe.bind (M := fun _ _ => True) ?_ fun _ _ _ => trivial
  refine Safe.bind (M := fun _ w => Starting w id) (safe_ask hgrace trivial hw trivial ?_) fun result w hw => ?_
  · intro result w' w'' _ hkept hrely _
    exact hrely.starting id rfl (hkept.starting id (fun _ heq => by cases heq) hw)
  · exact safe_ask hgrace hw hw rfl fun _ _ _ _ _ _ _ => trivial

/-! ### All of them together -/

omit hgrace in
theorem starting_of_grow {starts creates : List String} {image : String}
    (h : (custody L cfg).Makes (crew cfg) job .grow w (starts, creates, image) w') :
    starts.Nodup ∧ (∀ id ∈ starts, (∃ r, w.pool.hosts.get id = some r ∧ r.view.phase = .stopped) ∧ Starting w' id) ∧
      ∀ key ∈ creates, isPlaceholder key = true := by
  obtain ⟨choice, -, hexec⟩ := h.exec
  simp only [crew, World.exec, World.locked, Option.some.injEq, Prod.mk.injEq] at hexec
  obtain ⟨hanswer, rfl⟩ := hexec
  have hcreate : cfg.facts.canCreate = true := h.guard.1
  unfold grow at hanswer ⊢
  simp only [Prod.mk.injEq] at hanswer
  obtain ⟨rfl, rfl, -⟩ := hanswer
  obtain ⟨hnodup, hspec⟩ := growStarts_spec cfg w.clock (w.pool.wanted cfg) { w.pool with demand := 0 } fun k r hget hphase =>
    ((h.inv.named k r hget).known hphase).1
  refine ⟨hnodup, fun id hid => ?_, growCreates_placeholders _ _ _⟩
  obtain ⟨r, hget, hphase, hlast⟩ := hspec id hid
  refine ⟨⟨r, hget, hphase⟩, Or.inr ⟨_, ?_, show ((startingHost w.clock r).withID r.id).view.phase = .starting from rfl⟩⟩
  rcases get_growCreates w.clock _ (growStarts cfg w.clock (w.pool.wanted cfg) { w.pool with demand := 0 }).2.2 id with heq | ⟨seq, hseq, -⟩
  · exact heq.trans hlast
  · -- a host that exists is not entered under a placeholder
    have hused := ((h.inv.named id r hget).known (show r.phase ≠ .creating by rw [hphase]; simp)).2
    have hnot := h.inv.names hcreate id hused
    rw [hseq, isPlaceholder_placeholder] at hnot
    cases hnot

omit hgrace in
theorem forks_of_ne {answer : op.Ans} (hop : op ≠ .grow) : op.forks answer = [] := by
  cases op <;> first | rfl | exact absurd rfl hop

theorem lawful : (custody L cfg).Lawful (crew cfg) where
  rely_refl := Rely.refl
  rely_trans := Rely.trans
  compat_symm := Compatible.symm
  inv_step h := (makes_kept hgrace h).1
  compat_step h hcompat := hcompat.mono (makes_kept hgrace h).2.gone
  interfere h hcompat := makes_rely hgrace h hcompat
  forks_pairwise {job op w answer w'} h := by
    by_cases hop : op = .grow
    · subst hop
      obtain ⟨starts, creates, image⟩ := answer
      obtain ⟨hnodup, -, -⟩ := starting_of_grow h
      refine List.pairwise_append.mpr ⟨List.pairwise_map.mpr (hnodup.imp fun hne heq => absurd heq hne), ?_, ?_⟩
      · exact List.pairwise_map.mpr (List.pairwise_of_forall fun _ _ => trivial)
      · intro a ha b hb
        obtain ⟨id, -, rfl⟩ := List.mem_map.mp ha
        obtain ⟨key, -, rfl⟩ := List.mem_map.mp hb
        trivial
    · rw [show (crew cfg).forks op answer = [] from forks_of_ne hop]
      exact List.Pairwise.nil
  forks_compat {job op w answer w' other op' child} h hchild hguard := by
    by_cases hop : op = .grow
    · subst hop
      obtain ⟨starts, creates, image⟩ := answer
      obtain ⟨-, hstarts, -⟩ := starting_of_grow h
      rcases List.mem_append.mp hchild with hchild | hchild
      · obtain ⟨id, hid, rfl⟩ := List.mem_map.mp hchild
        cases other with
        | start id' =>
          rintro rfl
          -- a host that another goroutine is starting is not stopped, unless it is gone
          obtain ⟨⟨r, hr, hphase⟩, -⟩ := hstarts id' hid
          rcases hguard.2.1 with hgone | ⟨r', hr', hphase'⟩
          · exact (makes_kept hgrace h).2.gone id' hgone
          · rw [hr, Option.some.injEq] at hr'
            rw [← hr', hphase] at hphase'
            cases hphase'
        | _ => trivial
      · obtain ⟨key, -, rfl⟩ := List.mem_map.mp hchild
        cases other <;> trivial
    · rw [show (crew cfg).forks op answer = [] from forks_of_ne hop] at hchild
      exact absurd hchild List.not_mem_nil
  forks_safe {job op w answer w' child} h hchild := by
    by_cases hop : op = .grow
    · subst hop
      obtain ⟨starts, creates, image⟩ := answer
      obtain ⟨-, hstarts, hcreates⟩ := starting_of_grow h
      rcases List.mem_append.mp hchild with hchild | hchild
      · obtain ⟨id, hid, rfl⟩ := List.mem_map.mp hchild
        exact ⟨fun w'' hrely _ => safe_start hgrace (hrely.starting id rfl (hstarts id hid).2), _, _, rfl⟩
      · obtain ⟨key, hkey, rfl⟩ := List.mem_map.mp hchild
        exact ⟨fun w'' hrely _ => safe_create hgrace ⟨hcreates key hkey, h.guard.1⟩, _, _, rfl⟩
    · rw [show (crew cfg).forks op answer = [] from forks_of_ne hop] at hchild
      exact absurd hchild List.not_mem_nil

end

/-! ### Whole runs -/

section

variable (L : Liveness) (cfg : Config)

def Admitted (s : System) : Label → Prop
  | .spawn (.launch lease _) => L.timed → lease.deadline ≤ s.world.clock + cfg.maxLifetime
  | .advance i choice => ∀ call ∈ s.threads.pending i, Allowed L cfg s.world call.2 choice
  | _ => True

abbrev System.Safe (s : System) : Prop := (custody L cfg).CrewSafe (crew cfg) s.threads s.world

end

theorem credential_of_mem (hgrace : 0 ≤ cfg.unreachableGrace) {s : System} (h : s.Safe L cfg) {t : Job × Prog Call.Ans Outcome}
    (ht : t ∈ s.threads) : Credential cfg s.world t.1 := by
  obtain ⟨op, next, hcall⟩ := h.calls t ht
  obtain ⟨job, p⟩ := t
  subst hcall
  exact ((h.safe _ ht).guard (lawful hgrace) h.inv).2.1

theorem sourced_change (h : Sourced L cfg w) (change : EnvChange) : Sourced L cfg (w.change change) := by
  have hupdate : ∀ (id : String) (f : Machine → Machine), (∀ m, (f m).host = m.host) → ∀ k m, (w.updateMachine id f).machines.get k = some m →
      ∃ m, w.machines.get k = some m := by
    intro id f hf k m hm
    rcases updateMachine_cases w id f hf with heq | ⟨old, hold, -, heq⟩
    · exact ⟨m, heq ▸ hm⟩
    · rw [heq] at hm
      by_cases hk : k = old.host.id
      · exact ⟨old, hk ▸ hold⟩
      · rw [Table.get_put_of_ne (by rw [hf]; exact hk)] at hm
        exact ⟨m, hm⟩
  have hsame : ∀ (id : String) (f : Machine → Machine), (w.updateMachine id f).used = w.used ∧ (w.updateMachine id f).leases = w.leases := by
    intro id f
    unfold World.updateMachine
    split <;> exact ⟨rfl, rfl⟩
  cases change with
  | pass duration => exact (eased_change (.pass duration)).sourced_same h (fun _ m hm => ⟨m, hm⟩) rfl rfl
  | exit hostID slot =>
    exact (eased_change (.exit hostID slot)).sourced_same h (hupdate hostID _ fun _ => rfl) (hsame hostID _).1 (hsame hostID _).2
  | halt hostID =>
    exact (eased_change (.halt hostID)).sourced_same h (hupdate hostID _ fun _ => rfl) (hsame hostID _).1 (hsame hostID _).2
  | boot hostID =>
    exact (eased_change (.boot hostID)).sourced_same h (hupdate hostID _ Machine.boot_host) (hsame hostID _).1 (hsame hostID _).2

theorem sourced_noting {s : System} (h : Sourced L cfg s.world) {job : Job} (hmay : s.mayCall job = true)
    (hadmitted : Admitted L cfg s (.spawn job)) : Sourced L cfg (s.world.noting job) := by
  cases job with
  | launch lease grow =>
    simp only [System.mayCall, World.freshLease, Bool.and_eq_true] at hmay
    refine (eased_noting _).sourced h h.machines h.names (List.nodup_cons.mpr ⟨?_, h.leaseIDs⟩) ?_
    · intro hmem
      obtain ⟨other, hother, hid⟩ := List.mem_map.mp hmem
      simpa [hid] using List.all_eq_true.mp hmay.1 other hother
    · intro htimed other hother
      rcases List.mem_cons.mp hother with rfl | hother
      · exact hadmitted htimed
      · exact h.leases htimed other hother
  | _ => exact h

theorem safe_spawn (hgrace : 0 ≤ cfg.unreachableGrace) {s : System} {job : Job} (hmay : s.mayCall job = true) :
    (custody L cfg).ThreadSafe (crew cfg) ((crew cfg).fork job) (s.world.noting job) := by
  intro w' hrely _
  cases job with
  | launch lease grow => exact safe_launch hgrace (hrely.leases lease List.mem_cons_self)
  | inventory =>
    have htrue : Stable L cfg .inventory fun _ => True := ⟨fun _ => trivial, fun _ _ _ => trivial, fun _ _ => trivial⟩
    exact (safe_plain hgrace (plain_inventory cfg) htrue trivial).bind fun _ _ _ => trivial
  | destroy workerID =>
    have htrue : Stable L cfg (.destroy workerID) fun _ => True := ⟨fun _ => trivial, fun _ _ _ => trivial, fun _ _ => trivial⟩
    exact (safe_plain hgrace (plain_destroy cfg workerID) htrue trivial).bind fun _ _ _ => trivial
  | maintain => exact safe_maintain hgrace
  | create key image => cases hmay
  | start id => cases hmay

theorem compatible_spawn (hgrace : 0 ≤ cfg.unreachableGrace) {s : System} (h : s.Safe L cfg) {job : Job} (hmay : s.mayCall job = true)
    {t : Job × Prog Call.Ans Outcome} (ht : t ∈ s.threads) : Compatible s.world t.1 job := by
  have hcredential := credential_of_mem hgrace h ht
  obtain ⟨other, p⟩ := t
  cases job with
  | launch lease grow =>
    cases other with
    | launch other grow' =>
      simp only [System.mayCall, World.freshLease, Bool.and_eq_true] at hmay
      have hne : other.id ≠ lease.id := by simpa using List.all_eq_true.mp hmay.1 other hcredential
      exact hne
    | _ => trivial
  | maintain =>
    have hnone := List.all_eq_true.mp hmay _ ht
    cases other <;> trivial
  | inventory => cases other <;> trivial
  | destroy workerID => cases other <;> trivial
  | create key image => cases hmay
  | start id => cases hmay

theorem System.Safe.step (hgrace : 0 ≤ cfg.unreachableGrace) {s s' : System} {label : Label} (h : s.Safe L cfg)
    (hadmitted : Admitted L cfg s label) (hstep : System.step cfg label s = some s') : s'.Safe L cfg := by
  by_cases hrestart : label = .restart
  · subst hrestart
    cases System.stepped cfg hstep
    refine CrewOutline.CrewSafe.empty ?_
    exact
      { machines := h.inv.machines
        names := h.inv.names
        leaseIDs := h.inv.leaseIDs
        leases := h.inv.leases
        containers := h.inv.containers
        named := fun id r hget => by cases hget
        tidy := fun id r hget => by cases hget }
  have hbeside : ∀ {w'}, Eased L s.world w' → Sourced L cfg w' →
      Orderly L cfg w' ∧ (∀ job, Rely L job s.world w') ∧ ∀ k k', Compatible s.world k k' → Compatible w' k k' := fun heased hsourced =>
    ⟨heased.orderly h.inv hsourced, fun _ => heased.rely, fun _ _ hcompat => hcompat.mono fun _ => heased.isGone⟩
  refine System.crewSafe_step cfg (lawful hgrace) h hrestart ?_ ?_ ?_ hstep
  · rintro i choice rfl job op hpending
    exact hadmitted (job, op) hpending
  · rintro w' (⟨change, rfl, rfl⟩ | ⟨job, rfl, rfl⟩)
    · exact hbeside (eased_change change) (sourced_change h.inv.toSourced change)
    · cases System.stepped cfg hstep with
      | spawn _ hmay => exact hbeside (eased_noting job) (sourced_noting h.inv.toSourced hmay hadmitted)
  · rintro job rfl hmay
    exact ⟨fun t ht => (compatible_spawn hgrace h hmay ht).mono fun _ hgone => (eased_noting job : Eased L _ _).isGone hgone, safe_spawn hgrace hmay⟩

end Pool

end RunnerYard
