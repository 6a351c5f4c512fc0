import RunnerYard.Controller.Launch

/-!
# Reconciliation and recovery, for every lease

Outside launches the scaler works on one lease after another. Each piece of that work is verified for its own lease and is a drift for all others (`alone_cared`), so the loops over the inventory, the journal and local state keep what is known of every lease.

`Cared` is what lasts through all of it, for each lease: a lease at rest stays covered, a worker that is gone stays gone, and the log only grew by quiet calls.
-/

namespace RunnerYard

open Interaction
open Interaction.Prog (Safe All forEach)

namespace Custody

variable {s : Scaler} {I : Identity} {exact : Prop} {leaseID : String} {w w' w'' : World}

abbrev Alone (s : Scaler) (I : Identity) (exact : Prop) : Logic Call.Ans World := (outline s I exact).alone World.exec

structure Cared (leaseID : String) (w w' : World) : Prop where
  closed : Closed leaseID w → Closed leaseID w'
  gone : Gone leaseID w → Gone leaseID w'
  log : ∃ new, w'.log = new ++ w.log ∧ ∀ entry ∈ new, entry.loud = false

theorem Tended.cared (h : Tended leaseID w w') : Cared leaseID w w' := ⟨h.closed, h.gone, h.log⟩

theorem Drift.cared (h : Drift leaseID w w') : Cared leaseID w w' := h.tended.cared

theorem Cared.refl (leaseID : String) (w : World) : Cared leaseID w w := (Drift.refl leaseID w).cared

theorem Cared.trans (h : Cared leaseID w w') (h' : Cared leaseID w' w'') : Cared leaseID w w'' := by
  refine ⟨h'.closed ∘ h.closed, h'.gone ∘ h.gone, ?_⟩
  obtain ⟨new, hnew, hquiet⟩ := h.log
  obtain ⟨new', hnew', hquiet'⟩ := h'.log
  refine ⟨new' ++ new, by rw [hnew', hnew, List.append_assoc], fun entry hentry => ?_⟩
  rcases List.mem_append.mp hentry with hentry | hentry
  · exact hquiet' entry hentry
  · exact hquiet entry hentry

theorem Cared.suffix (h : Cared leaseID w w') : w.log <:+ w'.log := by
  obtain ⟨new, hnew, -⟩ := h.log
  exact ⟨new, hnew.symm⟩

theorem Cared.absentSince (h : Cared leaseID w w') {workerID : String} {since : Int} (habsent : absentSince workerID since w.log = true) :
    absentSince workerID since w'.log = true := by
  obtain ⟨new, hnew, hquiet⟩ := h.log
  rw [hnew]
  exact absentSince_append habsent hquiet

theorem Cared.launchedIdle (h : Cared leaseID w w') {name : String} (hidle : launchedIdle name w.log = true) :
    launchedIdle name w'.log = true := by
  obtain ⟨new, hnew, hquiet⟩ := h.log
  rw [hnew]
  exact launchedIdle_append hidle hquiet

/-! ### Rules for calls outside launches -/

theorem alone_ask {op : Call} {post : op.Ans → World → Prop} (hguard : Guard s I exact op w)
    (h : ∀ choice answer w₁ w', (outline s I exact).allowed op choice w → World.exec op choice w = some (answer, w₁) → Inv s I w →
      Env w₁ w' → Inv s I w' → post answer w') : Safe (Alone s I exact) (ask op) post w := by
  refine Prog.safe_perform ⟨hguard, trivial⟩ fun answer w₁ hstep w' hrely => ?_
  obtain ⟨choice, hallowed, hexec, hinv, -⟩ := hstep
  exact h choice answer w₁ w' hallowed hexec hinv hrely.1 hrely.2

theorem alone_quiet {op : Call} (hquiet : quiet op = true) {post : op.Ans → World → Prop}
    (h : ∀ choice answer w₁ w', (outline s I exact).allowed op choice w → World.exec op choice w = some (answer, w₁) →
      (∀ leaseID, Drift leaseID w w₁) → Env w₁ w' → Inv s I w' → post answer w') : Safe (Alone s I exact) (ask op) post w := by
  refine alone_ask (guard_of_quiet hquiet w) fun choice answer w₁ w' hallowed hexec hinv henv hinv' => ?_
  refine h choice answer w₁ w' hallowed hexec (fun leaseID => ?_) henv hinv'
  have hguard : Guard s I exact op w := guard_of_quiet hquiet w
  exact drift_of_exec hexec hallowed.1 hguard hinv (loud_of_quiet hquiet) (by simp [about_of_quiet hquiet])

theorem alone_skip {op : Call} (hquiet : quiet op = true) (w : World) :
    Safe (Alone s I exact) (ask op) (fun _ w' => (∀ leaseID, Drift leaseID w w') ∧ Inv s I w') w :=
  alone_quiet hquiet fun _ _ _ _ _ _ hdrift henv hinv' => ⟨fun leaseID => (hdrift leaseID).trans henv.drift, hinv'⟩

theorem alone_all {α : Type} {p : Script α} (hquiet : All (quiet · = true) p) (hinv : Inv s I w) :
    Safe (Alone s I exact) p (fun _ w' => (∀ leaseID, Drift leaseID w w') ∧ Inv s I w') w := by
  refine hquiet.safe (fun w' => (∀ leaseID, Drift leaseID w w') ∧ Inv s I w') ⟨fun leaseID => Drift.refl leaseID w, hinv⟩ ?_ ?_
  · exact fun op w' hop _ => ⟨guard_of_quiet hop w', trivial⟩
  · intro op w₁ answer w₂ w₃ hop hkeep hstep hrely
    obtain ⟨choice, hallowed, hexec, hinv₁, -⟩ := hstep
    have hguard : Guard s I exact op w₁ := guard_of_quiet hop w₁
    refine ⟨fun leaseID => ((hkeep.1 leaseID).trans ?_).trans hrely.1.drift, hrely.2⟩
    exact drift_of_exec hexec hallowed.1 hguard hinv₁ (loud_of_quiet hop) (by simp [about_of_quiet hop])

theorem alone_cared {α : Type} {p : Script α} {post : α → World → Prop}
    (h : Safe (Own s I exact leaseID) p (fun a w' => Inv s I w' ∧ Cared leaseID w w' ∧ post a w') w) :
    Safe (Alone s I exact) p (fun a w' => Inv s I w' ∧ (∀ other, Cared other w w') ∧ post a w' ∧
      ∀ other, other ≠ leaseID → Drift other w w') w := by
  refine (Outline.alone_of_own (lawful s I exact) (fun _ _ _ _ => trivial) h).mono fun a w' hresult => ?_
  obtain ⟨⟨hinv', hcared, hpost⟩, hdrift⟩ := hresult
  refine ⟨hinv', fun other => ?_, hpost, hdrift⟩
  by_cases hother : other = leaseID
  · exact hother ▸ hcared
  · exact (hdrift other hother).cared

/-! ### Pending retirements -/

theorem Inv.justified_of_get (hinv : Inv s I w) {entry : RetirementEntry}
    (h : w.journal.entries.get (runnerName leaseID) = some entry) : Justified s I leaseID w := by
  have hlease := hinv.leaseID_of_get h
  have hwarrant := (hinv.entries entry (Table.mem_of_get h)).2
  rw [hlease] at hwarrant
  cases hdisposition : entry.budgetDisposition with
  | forfeitReservation =>
    rw [hdisposition] at hwarrant
    exact Or.inl ⟨hwarrant, entry, h, hdisposition⟩
  | settleActualUsage =>
    rw [hdisposition] at hwarrant
    exact Or.inr hwarrant

variable {workers : List Worker} {choice : Choice} {w₁ : World} {records : List WorkerRecord} {worker : Worker} {record : WorkerRecord} {now : Int} {seen : Scaler.Seen}

theorem finishPendingRetirement_own (hworkers : ∀ worker ∈ workers, worker.Genuine I) {entry : RetirementEntry}
    (hget : w.journal.entries.get (runnerName leaseID) = some entry) (hinv : Inv s I w)
    (hgone : exact → (∀ worker ∈ workers, worker.leaseID ≠ leaseID) → Gone leaseID w) :
    Safe (Own s I exact leaseID) (s.finishPendingRetirement workers () entry) (fun _ w' => Inv s I w' ∧ Tended leaseID w w') w := by
  have hname : entry.runnerName = runnerName leaseID := Table.key_of_get hget
  have hlease := hinv.leaseID_of_get hget
  have hok := hinv.entries entry (Table.mem_of_get hget)
  unfold Scaler.finishPendingRetirement
  dsimp only
  have hworker : Safe (Own s I exact leaseID) (Scaler.pendingWorker (workers.find? (·.runnerName = entry.runnerName)) entry)
      (fun worker w' => Drift leaseID w w' ∧ Inv s I w' ∧
        ((workers.find? (·.runnerName = entry.runnerName)).isSome = true → worker.id = I.workerID leaseID)) w := by
    unfold Scaler.pendingWorker
    split
    · rename_i worker hfind
      refine ⟨Drift.refl leaseID w, hinv, fun _ => ?_⟩
      have hgenuine := hworkers worker (List.mem_of_find?_eq_some hfind)
      have hsame : worker.runnerName = entry.runnerName := by simpa using List.find?_some hfind
      have hleaseID : worker.leaseID = leaseID := runnerName_injective (hgenuine.name.symm.trans (hsame.trans hname))
      exact hgenuine.id.trans (congrArg I.workerID hleaseID)
    · rename_i hfind
      refine (own_skip rfl w).bind fun record w₁ hresult => ?_
      obtain ⟨hdrift₁, hinv₁⟩ := hresult
      cases record <;> exact ⟨hdrift₁, hinv₁, by simp [hfind]⟩
  refine hworker.bind fun worker w₁ hresult => ?_
  obtain ⟨hdrift₁, hinv₁, hid⟩ := hresult
  refine (own_all (quiet_inward (calm_identityCheck _ _).inward) hinv₁).bind fun mismatch w₂ hresult => ?_
  obtain ⟨hdrift₂, hinv₂⟩ := hresult
  have hdrift := hdrift₁.trans hdrift₂
  cases mismatch with
  | some failure => exact ⟨hinv₂, hdrift.tended⟩
  | none =>
    refine Safe.bind (finishRetirement_own hname hlease hinv₂ (fun _ => hdrift.entryOk hlease hok)
      (fun hsome => ⟨hid hsome, hdrift.justified (hinv.justified_of_get hget)⟩) fun hnone hexact => hdrift.gone (hgone hexact ?_)) ?_
    · rintro other hother rfl
      have hfind : workers.find? (·.runnerName = entry.runnerName) = none := by simpa using hnone
      exact List.find?_eq_none.mp hfind other hother (by simpa using (hworkers other hother).name.trans hname.symm)
    · refine fun failure w₃ hresult => ?_
      obtain ⟨hinv₃, htended₃⟩ := hresult
      exact ⟨hinv₃, hdrift.tended.trans htended₃⟩

structure Surveyed (I : Identity) (exact : Prop) (workers : List Worker) (w : World) : Prop where
  genuine : ∀ worker ∈ workers, worker.Genuine I
  nodup : (workers.map (·.leaseID)).Nodup
  logged : ∃ site past, LogEntry.call (.inventory site) (.ok workers) :: past <:+ w.log
  gone : exact → ∀ leaseID, (∀ worker ∈ workers, worker.leaseID ≠ leaseID) → Gone leaseID w

theorem Surveyed.cared (h : Surveyed I exact workers w) (hcared : ∀ leaseID, Cared leaseID w w') :
    Surveyed I exact workers w' := by
  obtain ⟨site, past, hpast⟩ := h.logged
  exact ⟨h.genuine, h.nodup, ⟨site, past, hpast.trans (hcared "").suffix⟩,
    fun hexact leaseID hlist => (hcared leaseID).gone (h.gone hexact leaseID hlist)⟩

theorem surveyed_of_inventory {site : Site}
    (hallowed : (outline s I exact).allowed (.inventory site) choice w)
    (hexec : World.exec (.inventory site) choice w = some (.ok workers, w₁)) (hdrift : ∀ leaseID, Drift leaseID w w₁) :
    Surveyed I exact workers w₁ := by
  obtain ⟨hgenuine, hnodup⟩ := inventory_contract hallowed hexec
  refine ⟨hgenuine, hnodup, ⟨site, w.log, ?_⟩, fun hexact leaseID hlist => (hdrift leaseID).gone (gone_of_inventory hallowed hexec hexact hlist)⟩
  exact World.exec_log hexec ▸ List.suffix_rfl

theorem finishPendingRetirements_alone (hsurvey : Surveyed I exact workers w) (hinv : Inv s I w) :
    Safe (Alone s I exact) (s.finishPendingRetirements workers)
      (fun _ w' => Inv s I w' ∧ ∀ leaseID, Tended leaseID w w') w := by
  unfold Scaler.finishPendingRetirements
  split
  · exact ⟨hinv, fun leaseID => (Drift.refl leaseID w).tended⟩
  · rw [Prog.safe_bind]
    refine alone_quiet rfl fun choice pending w₁ w₂ _ hexec hdrift₁ henv hinv₂ => ?_
    have hdrift₂ : ∀ leaseID, Drift leaseID w w₂ := fun leaseID => (hdrift₁ leaseID).trans henv.drift
    have hpending : (∀ entry ∈ pending, w₂.journal.entries.get entry.runnerName = some entry) ∧
        (pending.map RetirementEntry.runnerName).Nodup := by
      obtain ⟨rfl, rfl⟩ := World.exec_of_effect rfl hexec
      refine ⟨fun entry hentry => ?_, RetirementQueue.all_nodup _⟩
      rw [henv.journal]
      exact Table.get_of_mem (RetirementQueue.mem_all.mp hentry)
    have hloop : Safe (Alone s I exact) (forEach (s.finishPendingRetirement workers) pending ())
        (fun _ w' => Inv s I w' ∧ ∀ leaseID, Tended leaseID w w') w₂ := by
      refine Prog.safe_forEach (fun rest _ w' => Inv s I w' ∧ (∀ leaseID, Tended leaseID w w') ∧
        (∀ entry ∈ rest, w'.journal.entries.get entry.runnerName = some entry) ∧ (rest.map RetirementEntry.runnerName).Nodup) ?_ ?_
        ⟨hinv₂, fun leaseID => (hdrift₂ leaseID).tended, hpending⟩
      · rintro entry rest ⟨⟩ w' ⟨hinv', htended, hget, hnodup⟩
        have hentry := hget entry List.mem_cons_self
        have hname := (hinv'.entries entry (Table.mem_of_get hentry)).1
        rw [List.map_cons, List.nodup_cons] at hnodup
        have hgone : exact → (∀ worker ∈ workers, worker.leaseID ≠ entry.leaseID) → Gone entry.leaseID w' := fun hexact hlist =>
          (htended entry.leaseID).gone (hsurvey.gone hexact entry.leaseID hlist)
        have hbody := Outline.alone_of_own (lawful s I exact) (fun _ _ _ _ => trivial)
          (finishPendingRetirement_own hsurvey.genuine (hname ▸ hentry) hinv' hgone)
        refine hbody.mono fun r w₃ hresult => ?_
        obtain ⟨⟨hinv₃, htended₃⟩, hdrift₃⟩ := hresult
        have hall : ∀ leaseID, Tended leaseID w w₃ := by
          intro leaseID
          by_cases heq : leaseID = entry.leaseID
          · exact (htended leaseID).trans (heq ▸ htended₃)
          · exact (htended leaseID).drift (hdrift₃ leaseID heq)
        obtain ⟨⟨⟩, failure⟩ := r
        cases failure with
        | some failure => exact ⟨hinv₃, hall⟩
        | none =>
          refine ⟨hinv₃, hall, fun other hother => ?_, hnodup.2⟩
          have hotherget := hget other (List.mem_cons_of_mem entry hother)
          have hothername := (hinv'.entries other (Table.mem_of_get hotherget)).1
          have hne : other.leaseID ≠ entry.leaseID := by
            intro heq
            apply hnodup.1
            rw [hname, ← heq, ← hothername]
            exact List.mem_map_of_mem hother
          rw [hothername] at hotherget ⊢
          exact (hdrift₃ other.leaseID hne).journal.trans hotherget
      · exact fun _ w' h => ⟨h.1, h.2.1⟩
    exact hloop.bind fun _ w₃ h => h

/-! ### The inventory -/

structure Recorded (s : Scaler) (I : Identity) (records : List WorkerRecord) (w : World) : Prop where
  genuine : ∀ record ∈ records, record.worker.Genuine I
  idle : ∀ record ∈ records, record.observed = true → record.busy = false → launchedIdle record.name w.log = true
  missing : ∀ record ∈ records, record.missingSince ≠ 0 →
    absentSince record.worker.id record.missingSince w.log = true ∨ Evidence s I record.worker.leaseID w.log

theorem Recorded.cared (h : Recorded s I records w) (hcared : Cared leaseID w w') :
    Recorded s I records w' := by
  refine ⟨h.genuine, fun record hrecord hobserved hbusy => hcared.launchedIdle (h.idle record hrecord hobserved hbusy), ?_⟩
  intro record hrecord hzero
  exact (h.missing record hrecord hzero).imp hcared.absentSince fun hevidence => hevidence.suffix hcared.suffix

/-- A listed worker is dealt with: marked as seen, and if it still counts as missing there are grounds to destroy it. -/
structure Handled (s : Scaler) (I : Identity) (worker : Worker) (seen seen' : Scaler.Seen) (w : World) : Prop where
  marked : worker.id ∈ seen'.present ∨ worker.runnerName ∈ seen'.retired
  present : ∀ workerID ∈ seen.present, workerID ∈ seen'.present
  retired : ∀ name ∈ seen.retired, name ∈ seen'.retired
  missing : ∀ record, w.state.workers.get (runnerName worker.leaseID) = some record → record.missingSince ≠ 0 →
    Evidence s I worker.leaseID w.log

theorem own_time (w : World) : Safe (Own s I exact leaseID) time
    (fun now w' => Drift leaseID w w' ∧ Inv s I w' ∧ LogEntry.call .now now :: w.log <:+ w'.log) w := by
  refine own_quiet rfl fun choice now w₁ w' _ hexec hown hdrift hinv' => ⟨hown.trans hdrift, hinv', ?_⟩
  have hsuffix := hdrift.suffix
  rw [World.exec_log hexec] at hsuffix
  exact hsuffix

theorem retireListed_own (hworker : worker.Carries I leaseID) (seen : Scaler.Seen) (what : Err → Err)
    {after : Script Unit} (hafter : All (quiet · = true) after) (hevidence : Evidence s I leaseID w.log) :
    Safe (Own s I exact leaseID) (s.retireListed seen worker what after) (fun r w' => Inv s I w' ∧ Cared leaseID w w' ∧
      (r.2 = none → Handled s I worker seen r.1 w')) w := by
  unfold Scaler.retireListed
  refine Safe.bind (retireWorker_own hworker (show Warrant s I leaseID w.log .settleActualUsage from hevidence) (by simp))
    fun failure w₁ hresult => ?_
  obtain ⟨hinv₁, htended₁⟩ := hresult
  cases failure with
  | some failure => exact ⟨hinv₁, htended₁.cared, by simp⟩
  | none =>
    refine (own_all hafter hinv₁).bind fun _ w₂ hresult => ?_
    obtain ⟨hdrift₂, hinv₂⟩ := hresult
    refine ⟨hinv₂, (htended₁.drift hdrift₂).cared, fun _ => ?_⟩
    refine ⟨Or.inr List.mem_cons_self, fun _ => id, fun _ => List.mem_cons_of_mem _, fun _ _ _ => ?_⟩
    rw [hworker.lease]
    exact hevidence.suffix (htended₁.drift hdrift₂).suffix

theorem closed_of_mark {op : StateOp} (hadd : ∀ worker busy, op ≠ .add worker busy) (hadopt : ∀ worker, op ≠ .adopt worker)
    {answer : (Call.state op).Ans} (hexec : World.exec (.state op) choice w = some (answer, w₁))
    (hclosed : Closed leaseID w) : Closed leaseID w₁ := by
  intro record hrecord
  apply closed_of_state hexec
  obtain ⟨w₂, heffect, rfl⟩ := World.exec_eq_some_iff.mp hexec
  simp only [World.effect, Option.map_eq_some_iff, Prod.mk.injEq] at heffect
  obtain ⟨⟨a, st⟩, hst, rfl, rfl⟩ := heffect
  have hname : record.name = runnerName leaseID := Table.key_of_get hrecord
  have hbefore : ∀ old ∈ w.state.workers.rows, old.name = runnerName leaseID → Covers leaseID w := fun old hold hname =>
    hclosed old (hname ▸ Table.get_of_mem hold)
  cases StateOp.recordStep hst (Table.mem_of_get hrecord) with
  | kept hkept => exact hbefore record hkept hname
  | added worker busy => exact absurd rfl (hadd worker busy)
  | adopted worker => exact absurd rfl (hadopt worker)
  | started hold => exact hbefore _ hold hname
  | missed at_ hold _ => exact hbefore _ hold hname
  | seen hold => exact hbefore _ hold hname

theorem cared_of_state {op : StateOp} (hloud : (Call.state op).loud = false) {answer : (Call.state op).Ans}
    (hexec : World.exec (.state op) choice w = some (answer, w₁)) (hclosed : Closed leaseID w → Closed leaseID w₁) :
    Cared leaseID w w₁ := by
  refine ⟨hclosed, fun hgone => ?_, [.call (.state op) answer], World.exec_log hexec, by simpa [LogEntry.loud] using hloud⟩
  unfold Gone
  rw [(World.exec_sameBut hexec).fleet (by simp [Call.part])]
  exact hgone

theorem missingSince_markPresent {st : WorkerState} {name : String}
    (h : (st.markPresent name).workers.get name = some record) : record.missingSince = 0 := by
  unfold WorkerState.markPresent at h
  split at h
  · rename_i old hold
    split at h
    · rename_i hzero
      rw [hold, Option.some.injEq] at h
      exact h ▸ hzero
    · have hname : old.name = name := Table.key_of_get hold
      have hput := Table.get_put_self st.workers { old with missingSince := 0 }
      have hget : (st.workers.put { old with missingSince := 0 }).get old.name = some record := hname ▸ h
      exact Option.some.inj (hget.symm.trans hput) ▸ rfl
  · rename_i hnone
    rw [hnone] at h
    simp at h

theorem covers_of_adopt_refused {adopted : String} {startedAt : Int} {failure : Err}
    (hexec : World.exec (.adopt adopted startedAt) choice w = some (some failure, w₁)) (hwrites : WritesSucceed choice)
    (hcovers : Covers leaseID w) : Covers leaseID w₁ := by
  obtain ⟨w₂, heffect, rfl⟩ := World.exec_eq_some_iff.mp hexec
  simp only [World.effect, World.onDisk_eq_some_iff, World.ledger, Prod.mk.injEq] at heffect
  obtain ⟨disk, rfl, hfailure, rfl⟩ := heffect
  obtain rfl : disk = .ok := hwrites
  obtain ⟨hbudget, hdropped⟩ := adopt_refused hfailure
  show Covered ((w.budget.adopt adopted startedAt w.clock none).dropped ++ w.archive)
    (w.budget.adopt adopted startedAt w.clock none).budget leaseID
  rw [hbudget, hdropped]
  exact hcovers

theorem own_adopt (hworker : worker.Carries I leaseID) :
    Safe (Own s I exact leaseID) (ask (.adopt worker.leaseID worker.createdAt)) (fun failure w₁ => Inv s I w₁ ∧
      (failure ≠ none → Tended leaseID w w₁) ∧ (failure = none → Covers leaseID w₁ ∧ Cared leaseID w w₁)) w := by
  refine (own_ledger (.adopt worker.leaseID worker.createdAt) rfl rfl (by rw [hworker.lease]; rfl) trivial).mono fun failure w₁ hresult => ?_
  obtain ⟨hinv₁, ⟨choice, w₀, hexec, hwrites, hinv, hdrift⟩, hgone₁, hrecord₁, _, hlog₁⟩ := hresult
  refine ⟨hinv₁, fun hfailure => ?_, fun hnone => ?_⟩
  · obtain ⟨failure, rfl⟩ := Option.ne_none_iff_exists'.mp hfailure
    exact ⟨Or.inr ⟨hrecord₁, fun hcovers => hdrift.covers (covers_of_adopt_refused hexec hwrites hcovers)⟩, hgone₁, hlog₁⟩
  · subst hnone
    have hcovers₁ : Covers leaseID w₁ := hdrift.covers (hworker.lease ▸ covers_of_adopt hinv hexec)
    exact ⟨hcovers₁, fun _ _ _ => hcovers₁, hgone₁, hlog₁⟩

theorem keepListed_own (hrecords : ∀ record ∈ records, record.worker.Genuine I) (seen : Scaler.Seen)
    (hworker : worker.Carries I leaseID) :
    Safe (Own s I exact leaseID) (Scaler.keepListed records seen worker) (fun r w' => Inv s I w' ∧ Cared leaseID w w' ∧
      (r.2 = none → Handled s I worker seen r.1 w')) w := by
  unfold Scaler.keepListed
  dsimp only
  split
  · rename_i record hfind
    have hgenuine := hrecords record (List.mem_reverse.mp (List.mem_of_find?_eq_some hfind))
    have hid : record.worker.id = worker.id := by simpa using List.find?_some hfind
    have hname : record.name = runnerName leaseID := by
      rw [WorkerRecord.name, hgenuine.name, hgenuine.leaseID_eq hworker.genuine hid, hworker.lease]
    rw [Prog.safe_bind]
    refine own_ask trivial rfl (Or.inr (congrArg some hname)) fun choice answer w₁ w₂ _ hexec _ hdrift hinv₂ => ?_
    have hcared : Cared leaseID w w₁ := cared_of_state rfl hexec (closed_of_mark (by simp) (by simp) hexec)
    refine ⟨hinv₂, hcared.trans hdrift.cared, fun _ => ⟨Or.inl List.mem_cons_self, fun _ => List.mem_cons_of_mem _, fun _ => id, ?_⟩⟩
    intro present hpresent hzero
    rw [hworker.lease, hdrift.record] at hpresent
    obtain ⟨-, rfl⟩ := World.exec_of_effect rfl hexec
    rw [← hname] at hpresent
    exact absurd (missingSince_markPresent hpresent) hzero
  · refine (own_adopt hworker).bind fun failure w₁ hresult => ?_
    obtain ⟨hinv₁, hrefused, hadopted⟩ := hresult
    cases failure with
    | some failure =>
      refine (own_skip rfl w₁).bind fun _ w₂ hresult => ?_
      obtain ⟨hdrift₂, hinv₂⟩ := hresult
      exact ⟨hinv₂, ((hrefused (by simp)).drift hdrift₂).cared, by simp⟩
    | none =>
      obtain ⟨hcovers₁, hcared₁⟩ := hadopted rfl
      show Safe _ (ask (.state (.adopt worker)) >>= _) _ _
      rw [Prog.safe_bind]
      refine own_ask hworker.genuine rfl (Or.inr (congrArg some hworker.name)) fun choice answer w₂ w₃ _ hexec _ hdrift₃ hinv₃ => ?_
      have hclosed₂ : Closed leaseID w₂ := fun _ _ => closed_of_state hexec hcovers₁
      have hcared₂ : Cared leaseID w₁ w₂ := cared_of_state rfl hexec fun _ => hclosed₂
      refine ⟨hinv₃, (hcared₁.trans hcared₂).trans hdrift₃.cared, fun _ =>
        ⟨Or.inl List.mem_cons_self, fun _ => List.mem_cons_of_mem _, fun _ => id, ?_⟩⟩
      intro adopted hadopted hzero
      rw [hworker.lease, hdrift₃.record] at hadopted
      obtain ⟨-, rfl⟩ := World.exec_of_effect rfl hexec
      rw [← hworker.name] at hadopted
      have hput := Table.get_put_self w₁.state.workers ({ worker } : WorkerRecord)
      exact absurd (Option.some.inj (hadopted.symm.trans hput) ▸ rfl) hzero

theorem evidence_of_olderThan (hworker : worker.Carries I leaseID) {past : List LogEntry}
    (h : worker.olderThan s.maxLifetime now = true) : Evidence s I leaseID (.call .now now :: past) := by
  simp only [Worker.olderThan, Bool.and_eq_true, decide_eq_true_eq, hworker.created] at h
  exact (Grounds.expired now past h.1 h.2).evidence

theorem reconcileListed_own (hrecords : Recorded s I records w) (seen : Scaler.Seen)
    (hmem : worker ∈ workers) (hworker : worker.Carries I leaseID)
    (hlogged : ∃ site past, LogEntry.call (.inventory site) (.ok workers) :: past <:+ w.log) :
    Safe (Own s I exact leaseID) (s.reconcileListed records seen worker) (fun r w' => Inv s I w' ∧ Cared leaseID w w' ∧
      (r.2 = none → Handled s I worker seen r.1 w')) w := by
  unfold Scaler.reconcileListed
  dsimp only
  refine (own_time w).bind fun now w₁ hresult => ?_
  obtain ⟨hdrift₁, hinv₁, hnow₁⟩ := hresult
  have hretire : ∀ {w' : World} (what : Err → Err) {after : Script Unit}, Cared leaseID w w' → All (quiet · = true) after →
      Evidence s I leaseID w'.log → Safe (Own s I exact leaseID) (s.retireListed seen worker what after)
        (fun r w' => Inv s I w' ∧ Cared leaseID w w' ∧ (r.2 = none → Handled s I worker seen r.1 w')) w' :=
    fun what _ hcared hafter hevidence =>
      (retireListed_own hworker seen what hafter hevidence).mono fun _ _ h => ⟨h.1, hcared.trans h.2.1, h.2.2⟩
  split
  · rename_i hold
    exact hretire _ hdrift₁.cared trivial ((evidence_of_olderThan hworker hold).suffix hnow₁)
  · split
    · rename_i hstopped
      obtain ⟨site, past, hpast⟩ := hlogged
      refine hretire _ hdrift₁.cared ⟨rfl, fun now => s.all_logStopped (fun _ _ _ => rfl) worker _ now⟩ ?_
      exact (Grounds.stopped site workers worker past hmem hworker.lease hstopped).evidence.suffix (hpast.trans hdrift₁.suffix)
    · refine (own_time w₁).bind fun now w₂ hresult => ?_
      obtain ⟨hdrift₂, hinv₂, hnow₂⟩ := hresult
      have hcared₂ : Cared leaseID w w₂ := (hdrift₁.trans hdrift₂).cared
      split
      · rename_i hdangling
        simp only [Bool.and_eq_true, decide_eq_true_eq, Option.any_eq_true] at hdangling
        obtain ⟨⟨⟨record, hfind, hobserved, hbusy⟩, htimeout⟩, hold⟩ := hdangling
        have hrecord := List.mem_of_find?_eq_some hfind
        have hname : record.name = runnerName leaseID := by
          have hsame : record.name = worker.runnerName := by simpa using List.find?_some hfind
          exact hsame.trans hworker.name
        have hidle := hdrift₁.cared.launchedIdle (hrecords.idle record hrecord hobserved (by simpa using hbusy))
        simp only [Worker.olderThan, Bool.and_eq_true, decide_eq_true_eq, hworker.created] at hold
        refine hretire _ hcared₂ trivial (Evidence.suffix ?_ hnow₂)
        exact (Grounds.dangling now w₁.log htimeout (hname ▸ hidle) hold.1 hold.2).evidence
      · refine (keepListed_own hrecords.genuine seen hworker).mono fun _ _ h => ⟨h.1, hcared₂.trans h.2.1, h.2.2⟩

structure Passed (s : Scaler) (I : Identity) (passed : List Worker) (seen : Scaler.Seen) (w : World) : Prop where
  marked : ∀ worker ∈ passed, worker.id ∈ seen.present ∨ worker.runnerName ∈ seen.retired
  missing : ∀ worker ∈ passed, ∀ record, w.state.workers.get (runnerName worker.leaseID) = some record → record.missingSince ≠ 0 →
    Evidence s I worker.leaseID w.log

theorem Passed.drift {passed : List Worker} (h : Passed s I passed seen w)
    (hdrift : ∀ worker ∈ passed, Drift worker.leaseID w w') : Passed s I passed seen w' := by
  refine ⟨h.marked, fun worker hworker record hrecord hzero => ?_⟩
  rw [(hdrift worker hworker).record] at hrecord
  exact (h.missing worker hworker record hrecord hzero).suffix (hdrift worker hworker).suffix

theorem Passed.concat {passed : List Worker} {seen' : Scaler.Seen} (h : Passed s I passed seen w')
    (hworker : Handled s I worker seen seen' w') : Passed s I (passed ++ [worker]) seen' w' := by
  constructor
  · intro other hother
    rcases List.mem_append.mp hother with hother | hother
    · exact (h.marked other hother).imp (hworker.present _) (hworker.retired _)
    · exact List.mem_singleton.mp hother ▸ hworker.marked
  · intro other hother
    rcases List.mem_append.mp hother with hother | hother
    · exact h.missing other hother
    · exact List.mem_singleton.mp hother ▸ hworker.missing

theorem reconcileListed_loop (hsurvey : Surveyed I exact workers w)
    (hrecords : Recorded s I records w) (hinv : Inv s I w) :
    Safe (Alone s I exact) (forEach (s.reconcileListed records) workers {}) (fun r w' => Inv s I w' ∧ (∀ leaseID, Cared leaseID w w') ∧
      (r.2 = none → Passed s I workers r.1 w')) w := by
  refine Prog.safe_forEach (fun rest seen w' => Inv s I w' ∧ (∀ leaseID, Cared leaseID w w') ∧
    ∃ passed, workers = passed ++ rest ∧ Passed s I passed seen w') ?_ ?_
    ⟨hinv, fun leaseID => Cared.refl leaseID w, [], rfl, ⟨by simp, by simp⟩⟩
  · rintro worker rest seen w' ⟨hinv', hcared, passed, rfl, hpassed⟩
    have hmem : worker ∈ passed ++ worker :: rest := List.mem_append_right passed List.mem_cons_self
    obtain ⟨site, past, hpast⟩ := hsurvey.logged
    have hlogged : ∃ site past, LogEntry.call (.inventory site) (.ok (passed ++ worker :: rest)) :: past <:+ w'.log :=
      ⟨site, past, hpast.trans (hcared worker.leaseID).suffix⟩
    refine (alone_cared (reconcileListed_own (hrecords.cared (hcared worker.leaseID)) seen hmem (hsurvey.genuine worker hmem) hlogged)).mono
      fun r w₁ hresult => ?_
    obtain ⟨hinv₁, hcared₁, hhandled, hdrift₁⟩ := hresult
    have hall : ∀ leaseID, Cared leaseID w w₁ := fun leaseID => (hcared leaseID).trans (hcared₁ leaseID)
    obtain ⟨seen', failure⟩ := r
    cases failure with
    | some failure => exact ⟨hinv₁, hall, by simp⟩
    | none =>
      refine ⟨hinv₁, hall, passed ++ [worker], by simp, (hpassed.drift fun other hother => ?_).concat (hhandled rfl)⟩
      -- The inventory lists a lease once, so the others were not touched.
      apply hdrift₁
      have hnodup := hsurvey.nodup
      rw [List.map_append, List.nodup_append] at hnodup
      exact hnodup.2.2 other.leaseID (List.mem_map_of_mem hother) worker.leaseID (by simp)
  · rintro seen w' ⟨hinv', hcared, passed, rfl, hpassed⟩
    exact ⟨hinv', hcared, fun _ => by simpa using hpassed⟩

/-! ### Local state -/

structure Missed (s : Scaler) (I : Identity) (exact : Prop) (now : Int) (record : WorkerRecord) (w : World) : Prop where
  old : s.absentTooOld record now = true → Evidence s I record.worker.leaseID w.log
  grace : record.missingSince ≠ 0 → inventoryAbsenceGrace ≤ now - record.missingSince → Evidence s I record.worker.leaseID w.log
  absent : absentSince record.worker.id now w.log = true
  gone : exact → Gone record.worker.leaseID w

theorem Missed.cared (h : Missed s I exact now record w)
    (hcared : Cared record.worker.leaseID w w') : Missed s I exact now record w' :=
  ⟨fun hold => (h.old hold).suffix hcared.suffix, fun hzero hgrace => (h.grace hzero hgrace).suffix hcared.suffix,
    hcared.absentSince h.absent, fun hexact => hcared.gone (h.gone hexact)⟩

theorem retireAbsent_own (hrecord : record.worker.Genuine I) (now : Int)
    (hevidence : Evidence s I record.worker.leaseID w.log) (hgone : exact → Gone record.worker.leaseID w) :
    Safe (Own s I exact record.worker.leaseID) (s.retireAbsent record now)
      (fun _ w' => Inv s I w' ∧ Cared record.worker.leaseID w w' ∧ True) w := by
  unfold Scaler.retireAbsent
  refine Safe.bind (retireWorker_own hrecord (show Warrant s I record.worker.leaseID w.log .settleActualUsage from hevidence) fun _ => hgone)
    fun failure w₁ hresult => ?_
  obtain ⟨hinv₁, htended₁⟩ := hresult
  cases failure with
  | some failure => exact ⟨hinv₁, htended₁.cared, trivial⟩
  | none =>
    refine (own_skip rfl w₁).bind fun _ w₂ hresult => ?_
    obtain ⟨hdrift₂, hinv₂⟩ := hresult
    exact ⟨hinv₂, (htended₁.drift hdrift₂).cared, trivial⟩

theorem reconcileAbsent_own (hrecord : record.worker.Genuine I) (hinv : Inv s I w)
    (hmissed : record.name ∉ seen.retired → record.worker.id ∉ seen.present → Missed s I exact now record w) :
    Safe (Own s I exact record.worker.leaseID) (s.reconcileAbsent seen now () record)
      (fun _ w' => Inv s I w' ∧ Cared record.worker.leaseID w w' ∧ True) w := by
  unfold Scaler.reconcileAbsent
  split
  · exact ⟨hinv, Cared.refl _ w, trivial⟩
  · rename_i hunseen
    simp only [List.contains_eq_mem, Bool.or_eq_true, decide_eq_true_eq, not_or] at hunseen
    obtain ⟨hold, hgrace, habsent, hgone⟩ := hmissed hunseen.1 hunseen.2
    split
    · rename_i htooOld
      exact retireAbsent_own hrecord now (hold htooOld) hgone
    · split
      · rw [Prog.safe_bind]
        have hguard : Guard s I exact (.state (.markMissing record.name now)) w := by
          intro current hcurrent _
          have hname : current.name = record.name := Table.key_of_get hcurrent
          have hgenuine := hinv.records current (Table.mem_of_get hcurrent)
          have hlease : current.worker.leaseID = record.worker.leaseID :=
            runnerName_injective (hgenuine.name.symm.trans (hname.trans hrecord.name))
          rw [hgenuine.id, hlease, ← hrecord.id]
          exact Or.inl habsent
        refine own_ask hguard rfl (Or.inr (congrArg some hrecord.name)) fun choice answer w₁ w₂ _ hexec _ hdrift hinv₂ => ?_
        have hcared : Cared record.worker.leaseID w w₁ := cared_of_state rfl hexec (closed_of_mark (by simp) (by simp) hexec)
        exact ⟨hinv₂, hcared.trans hdrift.cared, trivial⟩
      · rename_i hzero
        split
        · exact ⟨hinv, Cared.refl _ w, trivial⟩
        · rename_i hwaited
          exact retireAbsent_own hrecord now (hgrace hzero (by omega)) hgone

theorem reconcileAbsent_loop (hrecords : ∀ record ∈ records, record.worker.Genuine I)
    (hinv : Inv s I w)
    (hmissed : ∀ record ∈ records, record.name ∉ seen.retired → record.worker.id ∉ seen.present → Missed s I exact now record w) :
    Safe (Alone s I exact) (forEach (s.reconcileAbsent seen now) records ()) (fun _ w' => Inv s I w' ∧ ∀ leaseID, Cared leaseID w w') w := by
  refine Prog.safe_forEach (fun rest _ w' => Inv s I w' ∧ (∀ leaseID, Cared leaseID w w') ∧ ∀ record ∈ rest, record ∈ records) ?_ ?_
    ⟨hinv, fun leaseID => Cared.refl leaseID w, fun _ => id⟩
  · rintro record rest ⟨⟩ w' ⟨hinv', hcared, hrest⟩
    have hrecord := hrest record List.mem_cons_self
    have hbody := alone_cared (reconcileAbsent_own (hrecords record hrecord) hinv' fun hname hid =>
      (hmissed record hrecord hname hid).cared (hcared record.worker.leaseID))
    refine hbody.mono fun r w₁ hresult => ?_
    obtain ⟨hinv₁, hcared₁, _, _⟩ := hresult
    have hall : ∀ leaseID, Cared leaseID w w₁ := fun leaseID => (hcared leaseID).trans (hcared₁ leaseID)
    obtain ⟨⟨⟩, failure⟩ := r
    cases failure with
    | some failure => exact ⟨hinv₁, hall⟩
    | none => exact ⟨hinv₁, hall, fun other hother => hrest other (List.mem_cons_of_mem record hother)⟩
  · exact fun _ w' h => ⟨h.1, h.2.1⟩

theorem missed_of_evaluated
    (hrecords : Recorded s I records w) (hrecord : record ∈ records) (hunlisted : ∀ worker ∈ workers, worker.id ≠ record.worker.id)
    (hlog : w'.log = .call (.note (.evaluated workers now)) () :: .call .now now :: w.log)
    (hgone : exact → Gone record.worker.leaseID w') : Missed s I exact now record w' := by
  have hgenuine := hrecords.genuine record hrecord
  have hname : record.name = runnerName record.worker.leaseID := hgenuine.name
  refine ⟨fun hold => ?_, fun hzero hgrace => ?_, ?_, hgone⟩
  · rw [hlog]
    apply Evidence.cons
    unfold Scaler.absentTooOld at hold
    rw [hgenuine.created] at hold
    simp only [Bool.or_eq_true, Bool.and_eq_true, decide_eq_true_eq, Bool.not_eq_true'] at hold
    by_cases hcreated : I.createdAt record.worker.leaseID = 0
    · rw [if_pos hcreated] at hold
      omega
    · rw [if_neg hcreated] at hold
      rcases hold with ⟨-, hold⟩ | ⟨⟨⟨htimeout, hobserved⟩, hbusy⟩, hold⟩
      · exact (Grounds.expired now w.log hcreated hold).evidence
      · exact (Grounds.dangling now w.log htimeout (hname ▸ hrecords.idle record hrecord hobserved hbusy) hcreated hold).evidence
  · rw [hlog]
    rcases hrecords.missing record hrecord hzero with habsent | hevidence
    · have hnow : absentSince record.worker.id record.missingSince (.call .now now :: w.log) = true :=
        absentSince_cons habsent (by simp)
      have hevaluated : absentSince record.worker.id record.missingSince
          (.call (.note (.evaluated workers now)) () :: .call .now now :: w.log) = true := absentSince_evaluated hnow hunlisted
      rw [hgenuine.id] at hevaluated
      exact (Grounds.absent workers now record.missingSince _ hevaluated hgrace).evidence
    · exact (hevidence.cons _).cons _
  · rw [hlog]
    exact absentSince_now hunlisted

theorem alone_time (w : World) : Safe (Alone s I exact) time
    (fun now w' => (∀ leaseID, Drift leaseID w w') ∧ Inv s I w' ∧ w'.log = .call .now now :: w.log) w :=
  alone_quiet rfl fun _ _ _ _ _ hexec hdrift henv hinv' =>
    ⟨fun leaseID => (hdrift leaseID).trans henv.drift, hinv', henv.log.trans (World.exec_log hexec)⟩

theorem alone_evaluated (hguard : Guard s I exact (.note (.evaluated workers now)) w) :
    Safe (Alone s I exact) (ask (.note (.evaluated workers now))) (fun _ w' => Inv s I w' ∧
      w'.log = .call (.note (.evaluated workers now)) () :: w.log ∧ (∀ leaseID, Closed leaseID w → Closed leaseID w') ∧
      ∀ leaseID, Gone leaseID w → Gone leaseID w') w := by
  refine alone_ask hguard fun choice answer w₁ w' _ hexec _ henv hinv' => ?_
  have hsame := World.exec_sameBut hexec
  obtain ⟨hbudget, -, harchive⟩ := hsame.ledger (by simp [Call.part])
  refine ⟨hinv', henv.log.trans (World.exec_log hexec), fun leaseID hclosed => ?_, fun leaseID hgone => henv.gone ?_⟩
  · apply henv.drift.closed
    unfold Closed Covers
    rw [hsame.state (by simp [Call.part]), hbudget, harchive]
    exact hclosed
  · unfold Gone
    rw [hsame.fleet (by simp [Call.part])]
    exact hgone

theorem inward_reconciled (s : Scaler) : Inward (do
    report (.orphans 0)
    s.reportState
    reportBudget
    report .recovered
    pure none : Script (Option Err)) :=
  (inward_ask rfl).bind fun _ => s.calm_reportState.inward.bind fun _ => calm_reportBudget.inward.bind fun _ => (inward_ask rfl).bind fun _ => trivial

theorem recorded_of_all
    (hexec : World.exec (.state .all) choice w = some (records, w₁)) (henv : Env w₁ w') (hinv : Inv s I w') :
    Recorded s I records w' := by
  have hperm : records.Perm w'.state.workers.rows := by
    rw [henv.state]
    obtain ⟨w₂, heffect, rfl⟩ := World.exec_eq_some_iff.mp hexec
    simp only [World.effect, Option.map_eq_some_iff, Prod.mk.injEq] at heffect
    obtain ⟨⟨a, st⟩, hst, rfl, rfl⟩ := heffect
    cases choice <;> simp only [StateOp.exec, reduceCtorEq] at hst
    split at hst
    · rename_i hperm
      simp only [Option.some.injEq, Prod.mk.injEq] at hst
      obtain ⟨rfl, rfl⟩ := hst
      exact hperm
    · simp at hst
  exact ⟨fun record hrecord => hinv.records record (hperm.mem_iff.mp hrecord),
    fun record hrecord => hinv.idle record (hperm.mem_iff.mp hrecord),
    fun record hrecord => hinv.missing record (hperm.mem_iff.mp hrecord)⟩

theorem reconcileWith_alone (hsurvey : Surveyed I exact workers w) (hclosed : ∀ leaseID, Closed leaseID w) :
    Safe (Alone s I exact) (s.reconcileWith workers) (fun _ w' => Inv s I w' ∧ ∀ leaseID, Closed leaseID w') w := by
  unfold Scaler.reconcileWith
  rw [Prog.safe_bind]
  refine alone_quiet rfl fun choice records w₀ w₁ _ hexec hdrift₀ henv hinv₁ => ?_
  have hrecords₁ : Recorded s I records w₁ := recorded_of_all hexec henv hinv₁
  have hdrift₁ : ∀ leaseID, Drift leaseID w w₁ := fun leaseID => (hdrift₀ leaseID).trans henv.drift
  refine (alone_time w₁).bind fun now₂ w₂ hresult => ?_
  obtain ⟨hdrift₂, _, _⟩ := hresult
  refine (alone_skip rfl w₂).bind fun _ w₃ hresult => ?_
  obtain ⟨hdrift₃, hinv₃⟩ := hresult
  have hdrift : ∀ leaseID, Drift leaseID w₁ w₃ := fun leaseID => (hdrift₂ leaseID).trans (hdrift₃ leaseID)
  have hcared₃ : ∀ leaseID, Cared leaseID w w₃ := fun leaseID => ((hdrift₁ leaseID).trans (hdrift leaseID)).cared
  have hrecords₃ := hrecords₁.cared (hdrift "").cared
  refine (reconcileListed_loop (hsurvey.cared hcared₃) hrecords₃ hinv₃).bind fun r w₄ hresult => ?_
  obtain ⟨hinv₄, hcared₄, hpassed₄⟩ := hresult
  have hclosed₄ : ∀ leaseID, Closed leaseID w₄ := fun leaseID => (hcared₄ leaseID).closed ((hcared₃ leaseID).closed (hclosed leaseID))
  have hsurvey₄ := (hsurvey.cared hcared₃).cared hcared₄
  have hrecords₄ := hrecords₃.cared (hcared₄ "")
  obtain ⟨seen, failure⟩ := r
  cases failure with
  | some failure => exact ⟨hinv₄, hclosed₄⟩
  | none =>
    have hpassed := hpassed₄ rfl
    refine (alone_time w₄).bind fun now w₅ hresult => ?_
    obtain ⟨hdrift₅, hinv₅, hlog₅⟩ := hresult
    have hguard : Guard s I exact (.note (.evaluated workers now)) w₅ := by
      intro record hrecord hzero
      by_cases hlisted : ∃ worker ∈ workers, worker.id = record.worker.id
      · obtain ⟨worker, hworker, hid⟩ := hlisted
        right
        have hlease := (hsurvey.genuine worker hworker).leaseID_eq (hinv₅.records record hrecord) hid
        have hname : record.name = runnerName worker.leaseID := hlease ▸ (hinv₅.records record hrecord).name
        rw [← hlease]
        exact (hpassed.drift fun other _ => hdrift₅ other.leaseID).missing worker hworker record
          (hname ▸ Table.get_of_mem hrecord) hzero
      · left
        intro worker hworker hid
        exact hlisted ⟨worker, hworker, hid⟩
    refine (alone_evaluated hguard).bind fun _ w₆ hresult => ?_
    obtain ⟨hinv₆, hlog₆, hclosed₆, hgone₆⟩ := hresult
    have hmissed₆ : ∀ record ∈ records, record.name ∉ seen.retired → record.worker.id ∉ seen.present →
        Missed s I exact now record w₆ := by
      intro record hrecord hname hid
      have hgenuine := hrecords₄.genuine record hrecord
      have hunlisted : ∀ worker ∈ workers, worker.id ≠ record.worker.id := by
        intro worker hworker heq
        have hlease := (hsurvey.genuine worker hworker).leaseID_eq hgenuine heq
        rcases hpassed.marked worker hworker with hpresent | hretired
        · exact hid (heq ▸ hpresent)
        · have hsame : worker.runnerName = record.name := by
            rw [WorkerRecord.name, (hsurvey.genuine worker hworker).name, hgenuine.name, hlease]
          exact hname (hsame ▸ hretired)
      refine missed_of_evaluated hrecords₄ hrecord hunlisted (by rw [hlog₆, hlog₅]) fun hexact => ?_
      apply hgone₆
      apply (hdrift₅ record.worker.leaseID).gone
      apply hsurvey₄.gone hexact
      intro worker hworker hlease
      apply hunlisted worker hworker
      rw [(hsurvey.genuine worker hworker).id, hgenuine.id, hlease]
    refine (alone_skip rfl w₆).bind fun _ w₇ hresult => ?_
    obtain ⟨hdrift₇, hinv₇⟩ := hresult
    refine (alone_skip rfl w₇).bind fun _ w₈ hresult => ?_
    obtain ⟨hdrift₈, hinv₈⟩ := hresult
    have hcared₈ : ∀ leaseID, Cared leaseID w₆ w₈ := fun leaseID => ((hdrift₇ leaseID).trans (hdrift₈ leaseID)).cared
    refine (reconcileAbsent_loop hrecords₄.genuine hinv₈ fun record hrecord hname hid =>
      (hmissed₆ record hrecord hname hid).cared (hcared₈ record.worker.leaseID)).bind fun r w₉ hresult => ?_
    obtain ⟨hinv₉, hcared₉⟩ := hresult
    have hclosed₉ : ∀ leaseID, Closed leaseID w₉ := fun leaseID => (hcared₉ leaseID).closed
      ((hcared₈ leaseID).closed (hclosed₆ leaseID ((hdrift₅ leaseID).closed (hclosed₄ leaseID))))
    obtain ⟨⟨⟩, failure⟩ := r
    cases failure with
    | some failure => exact ⟨hinv₉, hclosed₉⟩
    | none => exact (alone_all (quiet_inward (inward_reconciled s)) hinv₉).mono fun _ w' h => ⟨h.2, fun leaseID => (h.1 leaseID).closed (hclosed₉ leaseID)⟩

theorem alone_inventory (site : Site) (w : World) : Safe (Alone s I exact) (ask (.inventory site))
    (fun answer w' => (∀ leaseID, Drift leaseID w w') ∧ Inv s I w' ∧ ∀ workers, answer = .ok workers → Surveyed I exact workers w') w := by
  refine alone_quiet rfl fun choice answer w₁ w' hallowed hexec hdrift henv hinv' => ?_
  refine ⟨fun leaseID => (hdrift leaseID).trans henv.drift, hinv', ?_⟩
  rintro workers rfl
  exact (surveyed_of_inventory hallowed hexec hdrift).cared fun leaseID => henv.drift.cared

theorem reconcile_alone (hclosed : ∀ leaseID, Closed leaseID w) :
    Safe (Alone s I exact) s.reconcile (fun _ w' => Inv s I w' ∧ ∀ leaseID, Closed leaseID w') w := by
  have hreport : ∀ {w' : World} (u : StatusUpdate) (failure : Err), (∀ leaseID, Closed leaseID w') →
      Safe (Alone s I exact) (do report u; pure (some failure)) (fun _ w' => Inv s I w' ∧ ∀ leaseID, Closed leaseID w') w' :=
    fun u failure hclosed => (alone_skip rfl _).bind fun _ w₁ hresult =>
      ⟨hresult.2, fun leaseID => (hresult.1 leaseID).closed (hclosed leaseID)⟩
  unfold Scaler.reconcile
  refine (alone_inventory .reconcile w).bind fun answer w₁ hresult => ?_
  obtain ⟨hdrift₁, hinv₁, hsurvey₁⟩ := hresult
  have hclosed₁ : ∀ leaseID, Closed leaseID w₁ := fun leaseID => (hdrift₁ leaseID).closed (hclosed leaseID)
  cases answer with
  | error failure => exact hreport _ _ hclosed₁
  | ok workers =>
    refine (alone_skip rfl w₁).bind fun count w₂ hresult => ?_
    obtain ⟨hdrift₂, hinv₂⟩ := hresult
    have hclosed₂ : ∀ leaseID, Closed leaseID w₂ := fun leaseID => (hdrift₂ leaseID).closed (hclosed₁ leaseID)
    have hsurvey₂ := (hsurvey₁ workers rfl).cared fun leaseID => (hdrift₂ leaseID).cared
    split
    · refine (finishPendingRetirements_alone hsurvey₂ hinv₂).bind fun failure w₃ hresult => ?_
      obtain ⟨hinv₃, htended₃⟩ := hresult
      have hclosed₃ : ∀ leaseID, Closed leaseID w₃ := fun leaseID => (htended₃ leaseID).closed (hclosed₂ leaseID)
      cases failure with
      | some failure => exact hreport _ _ hclosed₃
      | none =>
        refine (alone_inventory .refresh w₃).bind fun answer w₄ hresult => ?_
        obtain ⟨hdrift₄, hinv₄, hsurvey₄⟩ := hresult
        have hclosed₄ : ∀ leaseID, Closed leaseID w₄ := fun leaseID => (hdrift₄ leaseID).closed (hclosed₃ leaseID)
        cases answer with
        | error failure => exact hreport _ _ hclosed₄
        | ok workers => exact reconcileWith_alone (hsurvey₄ workers rfl) hclosed₄
    · exact reconcileWith_alone hsurvey₂ hclosed₂

/-! ### Recovery -/

theorem recoverListed_own (hworker : worker.Carries I leaseID) (leases : List String) :
    Safe (Own s I exact leaseID) (Scaler.recoverListed leases worker) (fun r w' => Inv s I w' ∧ Cared leaseID w w' ∧
      (r.2 = none → r.1 = leaseID :: leases)) w := by
  unfold Scaler.recoverListed
  refine (own_adopt hworker).bind fun failure w₁ hresult => ?_
  obtain ⟨hinv₁, hrefused, hadopted⟩ := hresult
  cases failure with
  | some failure =>
    refine (own_skip rfl w₁).bind fun _ w₂ hresult => ?_
    obtain ⟨hdrift₂, hinv₂⟩ := hresult
    exact ⟨hinv₂, ((hrefused (by simp)).drift hdrift₂).cared, by simp⟩
  | none =>
    obtain ⟨hcovers₁, hcared₁⟩ := hadopted rfl
    show Safe _ (ask (.state (.adopt worker)) >>= _) _ _
    rw [Prog.safe_bind]
    refine own_ask hworker.genuine rfl (Or.inr (congrArg some hworker.name)) fun choice answer w₂ w₃ _ hexec _ hdrift₃ hinv₃ => ?_
    have hcared₂ : Cared leaseID w₁ w₂ := cared_of_state rfl hexec fun _ _ _ => closed_of_state hexec hcovers₁
    exact ⟨hinv₃, (hcared₁.trans hcared₂).trans hdrift₃.cared, fun _ => by rw [hworker.lease]⟩

/-- Recovery starts from an empty local state, so at its end every record is of a lease it collected. -/
theorem recoverListed_loop (hworkers : ∀ worker ∈ workers, worker.Genuine I) (hinv : Inv s I w)
    (hnone : ∀ leaseID, NoRecord leaseID w) :
    Safe (Alone s I exact) (forEach Scaler.recoverListed workers []) (fun r w' => Inv s I w' ∧ (∀ leaseID, Closed leaseID w') ∧
      (r.2 = none → ∀ leaseID, leaseID ∈ r.1 ∨ NoRecord leaseID w')) w := by
  refine Prog.safe_forEach (fun rest leases w' => Inv s I w' ∧ (∀ leaseID, Closed leaseID w') ∧
    (∀ leaseID, leaseID ∈ leases ∨ NoRecord leaseID w') ∧ ∀ worker ∈ rest, worker ∈ workers) ?_ ?_
    ⟨hinv, fun leaseID => (hnone leaseID).closed, fun leaseID => Or.inr (hnone leaseID), fun _ => id⟩
  · rintro worker rest leases w' ⟨hinv', hclosed, hleases, hrest⟩
    refine (alone_cared (recoverListed_own (hworkers worker (hrest worker List.mem_cons_self)) leases)).mono
      fun r w₁ hresult => ?_
    obtain ⟨hinv₁, hcared₁, hr, hdrift₁⟩ := hresult
    have hclosed₁ : ∀ leaseID, Closed leaseID w₁ := fun leaseID => (hcared₁ leaseID).closed (hclosed leaseID)
    obtain ⟨leases', failure⟩ := r
    cases failure with
    | some failure => exact ⟨hinv₁, hclosed₁, by simp⟩
    | none =>
      obtain rfl : leases' = worker.leaseID :: leases := hr rfl
      refine ⟨hinv₁, hclosed₁, fun leaseID => ?_, fun other hother => hrest other (List.mem_cons_of_mem worker hother)⟩
      by_cases heq : leaseID = worker.leaseID
      · exact Or.inl (heq ▸ List.mem_cons_self)
      · exact (hleases leaseID).imp (List.mem_cons_of_mem _) (hdrift₁ leaseID heq).noRecord
  · exact fun leases w' h => ⟨h.1, h.2.1, fun _ => h.2.2.1⟩

theorem alone_reconcileLeases {leases : List String} (hleases : ∀ leaseID, leaseID ∈ leases ∨ NoRecord leaseID w)
    (hclosed : ∀ leaseID, Closed leaseID w) :
    Safe (Alone s I exact) (ask (.reconcileLeases leases now)) (fun _ w' => Inv s I w' ∧ ∀ leaseID, Closed leaseID w') w := by
  refine alone_ask trivial fun choice answer w₁ w' _ hexec hinv henv hinv' => ⟨hinv', fun leaseID => henv.drift.closed ?_⟩
  have hstate : w₁.state = w.state := (World.exec_sameBut hexec).state (by simp [Call.part])
  intro record hrecord
  rw [hstate] at hrecord
  rcases hleases leaseID with hmem | hnone
  · obtain ⟨w₂, heffect, rfl⟩ := World.exec_eq_some_iff.mp hexec
    refine (ledger_step rfl heffect hinv.budget).2 leaseID (by simp [Call.about]) ?_ (hclosed leaseID record hrecord)
    rintro activeLeases now' heq
    simp only [Call.reconcileLeases.injEq] at heq
    exact heq.1 ▸ hmem
  · rw [hnone] at hrecord
    simp at hrecord

theorem recoverWith_alone (hworkers : ∀ worker ∈ workers, worker.Genuine I) (hnone : ∀ leaseID, NoRecord leaseID w) :
    Safe (Alone s I exact) (s.recoverWith workers) (fun _ w' => Inv s I w' ∧ ∀ leaseID, Closed leaseID w') w := by
  unfold Scaler.recoverWith
  refine (alone_skip rfl w).bind fun _ w₁ hresult => ?_
  obtain ⟨hdrift₁, hinv₁⟩ := hresult
  refine (recoverListed_loop hworkers hinv₁ fun leaseID => (hdrift₁ leaseID).noRecord (hnone leaseID)).bind
    fun r w₂ hresult => ?_
  obtain ⟨hinv₂, hclosed₂, hleases₂⟩ := hresult
  obtain ⟨leases, failure⟩ := r
  cases failure with
  | some failure => exact ⟨hinv₂, hclosed₂⟩
  | none =>
    refine (alone_time w₂).bind fun now w₃ hresult => ?_
    obtain ⟨hdrift₃, hinv₃, _⟩ := hresult
    refine (alone_reconcileLeases (fun leaseID => (hleases₂ rfl leaseID).imp id (hdrift₃ leaseID).noRecord)
      fun leaseID => (hdrift₃ leaseID).closed (hclosed₂ leaseID)).bind fun failure w₄ hresult => ?_
    obtain ⟨hinv₄, hclosed₄⟩ := hresult
    cases failure with
    | some failure =>
      refine (alone_skip rfl w₄).bind fun _ w₅ hresult => ?_
      obtain ⟨hdrift₅, hinv₅⟩ := hresult
      exact ⟨hinv₅, fun leaseID => (hdrift₅ leaseID).closed (hclosed₄ leaseID)⟩
    | none =>
      have hinward : Inward (do report (.orphans 0); s.reportState; reportBudget; pure none : Script (Option Err)) :=
        (inward_ask rfl).bind fun _ => s.calm_reportState.inward.bind fun _ => calm_reportBudget.inward.bind fun _ => trivial
      exact (alone_all (quiet_inward hinward) hinv₄).mono fun _ w' h => ⟨h.2, fun leaseID => (h.1 leaseID).closed (hclosed₄ leaseID)⟩

theorem recover_alone (hnone : ∀ leaseID, NoRecord leaseID w) :
    Safe (Alone s I exact) s.recover (fun _ w' => Inv s I w' ∧ ∀ leaseID, Closed leaseID w') w := by
  have hreport : ∀ {w' : World} (u : StatusUpdate) (failure : Err), (∀ leaseID, NoRecord leaseID w') →
      Safe (Alone s I exact) (do report u; pure (some failure)) (fun _ w' => Inv s I w' ∧ ∀ leaseID, Closed leaseID w') w' :=
    fun u failure hnone => (alone_skip rfl _).bind fun _ w₁ hresult =>
      ⟨hresult.2, fun leaseID => ((hresult.1 leaseID).noRecord (hnone leaseID)).closed⟩
  unfold Scaler.recover
  refine (alone_inventory .recover w).bind fun answer w₁ hresult => ?_
  obtain ⟨hdrift₁, hinv₁, hsurvey₁⟩ := hresult
  have hnone₁ : ∀ leaseID, NoRecord leaseID w₁ := fun leaseID => (hdrift₁ leaseID).noRecord (hnone leaseID)
  cases answer with
  | error failure => exact hreport _ _ hnone₁
  | ok workers =>
    refine (finishPendingRetirements_alone (hsurvey₁ workers rfl) hinv₁).bind fun failure w₂ hresult => ?_
    obtain ⟨hinv₂, htended₂⟩ := hresult
    have hnone₂ : ∀ leaseID, NoRecord leaseID w₂ := fun leaseID => (htended₂ leaseID).noRecord (hnone₁ leaseID)
    cases failure with
    | some failure => exact hreport _ _ hnone₂
    | none =>
      refine (alone_inventory .recoverRefresh w₂).bind fun answer w₃ hresult => ?_
      obtain ⟨hdrift₃, hinv₃, hsurvey₃⟩ := hresult
      have hnone₃ : ∀ leaseID, NoRecord leaseID w₃ := fun leaseID => (hdrift₃ leaseID).noRecord (hnone₂ leaseID)
      cases answer with
      | error failure => exact hreport _ _ hnone₃
      | ok workers => exact recoverWith_alone (hsurvey₃ workers rfl).genuine hnone₃

end Custody

end RunnerYard
