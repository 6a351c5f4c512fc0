import RunnerYard.Controller.Custody
import RunnerYard.Controller.Footprint

/-!
# Retirement, for one lease

What each step of a retirement does to the lease it is for, verified once in the logic of a thread that works for that lease. The reconcile loops and the launch threads both use these rules.

`Tended` is what every piece of such work leaves of the lease, wherever it stops: its worker stays gone if it was, its record is as it was or has been dropped, and the log grew by calls of its own.
-/

namespace RunnerYard

open Interaction
open Interaction.Prog (Safe All forEach)

namespace Custody

variable {s : Scaler} {I : Identity} {exact : Prop} {leaseID : String}

abbrev Own (s : Scaler) (I : Identity) (exact : Prop) (leaseID : String) : Logic Call.Ans World :=
  (outline s I exact).own World.exec leaseID

structure Tended (leaseID : String) (w w' : World) : Prop where
  record : w'.state.workers.get (runnerName leaseID) = none ∨
    (w'.state.workers.get (runnerName leaseID) = w.state.workers.get (runnerName leaseID) ∧ (Covers leaseID w → Covers leaseID w'))
  gone : Gone leaseID w → Gone leaseID w'
  log : ∃ new, w'.log = new ++ w.log ∧ ∀ entry ∈ new, entry.loud = false

section Tended

variable {w w' w'' : World}

theorem Drift.tended (h : Drift leaseID w w') : Tended leaseID w w' := by
  obtain ⟨new, hnew, hquiet⟩ := h.log
  exact ⟨Or.inr ⟨h.record, h.covers⟩, h.gone, new, hnew, fun entry hentry => (hquiet entry hentry).2⟩

theorem Tended.trans (h : Tended leaseID w w') (h' : Tended leaseID w' w'') : Tended leaseID w w'' := by
  refine ⟨?_, h'.gone ∘ h.gone, ?_⟩
  · rcases h'.record with hnone | ⟨hsame', hcovers'⟩
    · exact Or.inl hnone
    · rcases h.record with hnone | ⟨hsame, hcovers⟩
      · exact Or.inl (hsame'.trans hnone)
      · exact Or.inr ⟨hsame'.trans hsame, hcovers' ∘ hcovers⟩
  · obtain ⟨new, hnew, hquiet⟩ := h.log
    obtain ⟨new', hnew', hquiet'⟩ := h'.log
    refine ⟨new' ++ new, by rw [hnew', hnew, List.append_assoc], fun entry hentry => ?_⟩
    rcases List.mem_append.mp hentry with hentry | hentry
    · exact hquiet' entry hentry
    · exact hquiet entry hentry

theorem Tended.drift (h : Tended leaseID w w') (h' : Drift leaseID w' w'') : Tended leaseID w w'' := h.trans h'.tended

theorem Tended.suffix (h : Tended leaseID w w') : w.log <:+ w'.log := by
  obtain ⟨new, hnew, -⟩ := h.log
  exact ⟨new, hnew.symm⟩

theorem Tended.noRecord (h : Tended leaseID w w') (hnone : w.state.workers.get (runnerName leaseID) = none) :
    w'.state.workers.get (runnerName leaseID) = none := by
  rcases h.record with hnone' | ⟨hsame, -⟩
  · exact hnone'
  · exact hsame.trans hnone

theorem Tended.closed (h : Tended leaseID w w') (hclosed : Closed leaseID w) : Closed leaseID w' := by
  intro record hrecord
  rcases h.record with hnone | ⟨hsame, hcovers⟩
  · rw [hnone] at hrecord
    simp at hrecord
  · rw [hsame] at hrecord
    exact hcovers (hclosed record hrecord)

end Tended

/-! ### Rules for calls -/

def quiet : Call → Bool
  | .destroy _ => false
  | op => !op.loud && op.about.isNone

variable {op : Call} {w : World} {entry : RetirementEntry} {worker : Worker}

theorem loud_of_quiet (h : quiet op = true) : op.loud = false := by
  cases op <;> simp_all [quiet]

theorem about_of_quiet (h : quiet op = true) : op.about = none := by
  cases op <;> simp_all [quiet]

theorem guard_of_quiet (h : quiet op = true) (w : World) : Guard s I exact op w := by
  cases op with
  | state op => cases op <;> trivial
  | note n => cases n <;> trivial
  | _ => trivial

theorem own_ask {post : op.Ans → World → Prop} (hguard : Guard s I exact op w) (hloud : op.loud = false)
    (habout : op.about = none ∨ op.about = some (runnerName leaseID))
    (h : ∀ choice answer w₁ w', (outline s I exact).allowed op choice w → World.exec op choice w = some (answer, w₁) → Inv s I w →
      Drift leaseID w₁ w' → Inv s I w' → post answer w') : Safe (Own s I exact leaseID) (ask op) post w := by
  refine Prog.safe_perform ⟨hguard, hloud, habout⟩ fun answer w₁ hstep w' hrely => ?_
  obtain ⟨choice, hallowed, hexec, hinv, -⟩ := hstep
  exact h choice answer w₁ w' hallowed hexec hinv hrely.1 hrely.2

theorem own_foreign {post : op.Ans → World → Prop} (hguard : Guard s I exact op w) (hloud : op.loud = false)
    (habout : op.about = none)
    (h : ∀ choice answer w₁ w', (outline s I exact).allowed op choice w → World.exec op choice w = some (answer, w₁) →
      Drift leaseID w w₁ → Drift leaseID w₁ w' → Inv s I w' → post answer w') : Safe (Own s I exact leaseID) (ask op) post w := by
  refine own_ask hguard hloud (Or.inl habout) fun choice answer w₁ w' hallowed hexec hinv hdrift hinv' => ?_
  have hown : Drift leaseID w w₁ := drift_of_exec hexec hallowed.1 hguard hinv hloud (by simp [habout])
  exact h choice answer w₁ w' hallowed hexec hown hdrift hinv'

theorem own_quiet (hquiet : quiet op = true) {post : op.Ans → World → Prop}
    (h : ∀ choice answer w₁ w', (outline s I exact).allowed op choice w → World.exec op choice w = some (answer, w₁) →
      Drift leaseID w w₁ → Drift leaseID w₁ w' → Inv s I w' → post answer w') : Safe (Own s I exact leaseID) (ask op) post w :=
  own_foreign (guard_of_quiet hquiet w) (loud_of_quiet hquiet) (about_of_quiet hquiet) h

theorem own_skip (hquiet : quiet op = true) (w : World) :
    Safe (Own s I exact leaseID) (ask op) (fun _ w' => Drift leaseID w w' ∧ Inv s I w') w :=
  own_quiet hquiet fun _ _ _ _ _ _ hdrift hdrift' hinv' => ⟨hdrift.trans hdrift', hinv'⟩

theorem own_all {α : Type} {p : Script α} (hquiet : All (quiet · = true) p) (hinv : Inv s I w) :
    Safe (Own s I exact leaseID) p (fun _ w' => Drift leaseID w w' ∧ Inv s I w') w := by
  refine hquiet.safe (fun w' => Drift leaseID w w' ∧ Inv s I w') ⟨Drift.refl leaseID w, hinv⟩ ?_ ?_
  · intro op w' hop _
    exact ⟨guard_of_quiet hop w', loud_of_quiet hop, Or.inl (about_of_quiet hop)⟩
  · intro op w₁ answer w₂ w₃ hop hkeep hstep hrely
    obtain ⟨choice, hallowed, hexec, hinv₁, -⟩ := hstep
    have hguard : Guard s I exact op w₁ := guard_of_quiet hop w₁
    have hdrift : Drift leaseID w₁ w₂ := drift_of_exec hexec hallowed.1 hguard hinv₁ (loud_of_quiet hop) (by simp [about_of_quiet hop])
    exact ⟨(hkeep.1.trans hdrift).trans hrely.1, hrely.2⟩

theorem quiet_of_inward (h : op.inward = true) : quiet op = true := by
  cases op with
  | state op => cases op <;> first | rfl | simp [Call.inward] at h
  | note n => cases n <;> first | rfl | simp [Call.inward] at h
  | _ => first | rfl | simp [Call.inward] at h

theorem quiet_inward {α : Type} {p : Script α} (h : Inward p) : All (quiet · = true) p := h.mono fun _ => quiet_of_inward

theorem tended_of_exec {choice : Choice} {w₁ : World} {answer : op.Ans} (h : World.exec op choice w = some (answer, w₁))
    (hloud : op.loud = false) (hstate : op.part ≠ .state) (hledger : op.part ≠ .ledger) (hfleet : op.part ≠ .fleet) :
    Tended leaseID w w₁ := by
  have hsame := World.exec_sameBut h
  obtain ⟨hbudget, -, harchive⟩ := hsame.ledger hledger
  refine ⟨Or.inr ⟨by rw [hsame.state hstate], fun hcovers => ?_⟩, fun hgone => ?_, [.call op answer], World.exec_log h, ?_⟩
  · unfold Covers
    rw [hbudget, harchive]
    exact hcovers
  · unfold Gone
    rw [hsame.fleet hfleet]
    exact hgone
  · simpa [LogEntry.loud] using hloud

theorem own_put (hlease : entry.leaseID = leaseID) (hok : EntryOk s I entry w.log) :
    Safe (Own s I exact leaseID) (ask (.put entry)) (fun failure w' => Inv s I w' ∧ Tended leaseID w w' ∧
      EntryOk s I entry w'.log ∧ (failure = none → ∃ pending, w'.journal.entries.get (runnerName leaseID) = some pending ∧
        pending.budgetDisposition = entry.budgetDisposition)) w := by
  have hname : entry.runnerName = runnerName leaseID := hlease ▸ hok.1
  refine own_ask hok rfl (Or.inr (congrArg some hname)) fun choice answer w₁ w' hallowed hexec hinv hdrift hinv' => ?_
  refine ⟨hinv', (tended_of_exec hexec rfl (by simp [Call.part]) (by simp [Call.part]) (by simp [Call.part])).drift hdrift, ?_, ?_⟩
  · have hlogged : EntryOk s I entry w₁.log := World.exec_log hexec ▸ hok.cons rfl
    exact hdrift.entryOk hlease hlogged
  · intro hnone
    obtain ⟨disk, hanswer, rfl⟩ := World.exec_put hexec
    obtain ⟨pending, hget, -, hdisposition, -⟩ := RetirementQueue.get_put (Prod.ext (hanswer.trans hnone) rfl)
    rw [hname] at hget
    exact ⟨pending, hdrift.journal.trans hget, hdisposition⟩

/-! ### The steps of a retirement -/

theorem gone_filter {fleet : List Worker} (hfleet : ∀ worker ∈ fleet, worker.Genuine I)
    (hworker : worker ∈ fleet.filter fun worker => worker.id ≠ I.workerID leaseID) : worker.leaseID ≠ leaseID := by
  rw [List.mem_filter] at hworker
  rintro rfl
  have hid := hworker.2
  simp [(hfleet worker hworker.1).id] at hid

theorem gone_of_inventory {site : Site} {workers : List Worker} {choice : Choice} {w₁ : World}
    (hallowed : (outline s I exact).allowed (.inventory site) choice w)
    (hexec : World.exec (.inventory site) choice w = some (.ok workers, w₁)) (hexact : exact)
    (hworkers : ∀ worker ∈ workers, worker.leaseID ≠ leaseID) : Gone leaseID w := by
  obtain rfl := World.exec_inventory hexec
  have hperm : workers.Perm w.fleet := (hallowed.2.2 hexact).1
  exact fun worker hworker => hworkers worker (hperm.mem_iff.mpr hworker)

theorem inventory_contract {site : Site} {workers : List Worker} {choice : Choice} {w₁ : World}
    (hallowed : (outline s I exact).allowed (.inventory site) choice w)
    (hexec : World.exec (.inventory site) choice w = some (.ok workers, w₁)) :
    (∀ worker ∈ workers, worker.Genuine I) ∧ (workers.map (·.leaseID)).Nodup := by
  obtain rfl := World.exec_inventory hexec
  exact hallowed.1

theorem destroyWorker_own (hid : worker.id = I.workerID leaseID) (hinv : Inv s I w)
    (hjust : Justified s I leaseID w) : Safe (Own s I exact leaseID) (Scaler.destroyWorker worker)
      (fun failure w' => Drift leaseID w w' ∧ Inv s I w' ∧ (exact → failure = none → Gone leaseID w')) w := by
  unfold Scaler.destroyWorker
  rw [Prog.safe_bind]
  refine own_foreign ⟨leaseID, hid, hjust⟩ rfl rfl fun choice answer w₁ w' hallowed hexec hown hdrift hinv' => ?_
  cases answer with
  | none =>
    refine ⟨hown.trans hdrift, hinv', fun hexact _ => hdrift.gone ?_⟩
    obtain ⟨w₂, heffect, rfl⟩ := World.exec_eq_some_iff.mp hexec
    cases choice <;> simp only [World.effect, Option.some.injEq, Prod.mk.injEq, reduceCtorEq] at heffect
    obtain ⟨rfl, rfl⟩ := heffect
    have htaken := (hallowed.2.2 hexact).1
    simp only [ExactProvider] at htaken
    subst htaken
    intro other hother
    exact gone_filter hinv.fleet (hid ▸ hother)
  | some deleteErr =>
    show Safe _ (ask (.inventory (.confirmDeletion worker.id)) >>= _) _ _
    rw [Prog.safe_bind]
    refine own_quiet rfl fun choice answer w₂ w₃ hallowed hexec hown' hdrift' hinv₃ => ?_
    have hkept : Drift leaseID w w₃ := ((hown.trans hdrift).trans hown').trans hdrift'
    cases answer with
    | error inventoryErr => exact ⟨hkept, hinv₃, by simp⟩
    | ok workers =>
      refine ⟨hkept, hinv₃, fun hexact hnone => (hown'.trans hdrift').gone (gone_of_inventory hallowed hexec hexact ?_)⟩
      rintro other hother rfl
      have hotherid := ((inventory_contract hallowed hexec).1 other hother).id
      have hany : workers.any (·.id = worker.id) = true := by
        simp only [List.any_eq_true, decide_eq_true_eq]
        exact ⟨other, hother, hotherid.trans hid.symm⟩
      simp [hany] at hnone

theorem removeFoundRegistration_own (hlease : entry.leaseID = leaseID) (hinv : Inv s I w)
    (hput : entry.runnerID = 0 → EntryOk s I entry w.log) (runner : RunnerReference) :
    Safe (Own s I exact leaseID) (Scaler.removeFoundRegistration entry runner) (fun _ w' => Inv s I w' ∧ Tended leaseID w w') w := by
  have hbind : ∀ bound : RetirementEntry, bound = { entry with runnerID := bound.runnerID } → Safe (Own s I exact leaseID)
      (Scaler.bindRegistration entry bound) (fun _ w' => Inv s I w' ∧ Tended leaseID w w') w := by
    intro bound hbound
    unfold Scaler.bindRegistration
    split
    · rename_i hzero
      have hok : EntryOk s I bound w.log := hbound ▸ hput hzero
      have hlease' : bound.leaseID = leaseID := hbound ▸ hlease
      exact (own_put hlease' hok).mono fun failure w' h => ⟨h.1, h.2.1⟩
    · exact ⟨hinv, (Drift.refl leaseID w).tended⟩
  refine (hbind _ rfl).bind fun bindErr w₁ hresult => ?_
  obtain ⟨hinv₁, htended₁⟩ := hresult
  cases bindErr with
  | some failure => exact ⟨hinv₁, htended₁⟩
  | none =>
    refine (own_all (quiet_inward (calm_identityCheck _ _).inward) hinv₁).bind fun mismatch w₂ hresult => ?_
    obtain ⟨hdrift₂, hinv₂⟩ := hresult
    cases mismatch with
    | some failure => exact ⟨hinv₂, htended₁.drift hdrift₂⟩
    | none =>
      refine (own_skip rfl w₂).bind fun removeErr w₃ hresult => ?_
      obtain ⟨hdrift₃, hinv₃⟩ := hresult
      cases removeErr <;> exact ⟨hinv₃, (htended₁.drift hdrift₂).drift hdrift₃⟩

theorem removeRunnerRegistration_own (hlease : entry.leaseID = leaseID) (hinv : Inv s I w)
    (hput : entry.runnerID = 0 → EntryOk s I entry w.log) :
    Safe (Own s I exact leaseID) (s.removeRunnerRegistration entry) (fun _ w' => Inv s I w' ∧ Tended leaseID w w') w := by
  unfold Scaler.removeRunnerRegistration
  split
  · exact ⟨hinv, (Drift.refl leaseID w).tended⟩
  · refine (own_skip rfl w).bind fun answer w₁ hresult => ?_
    obtain ⟨hdrift₁, hinv₁⟩ := hresult
    match answer with
    | .error failure => exact ⟨hinv₁, hdrift₁.tended⟩
    | .ok none => exact ⟨hinv₁, hdrift₁.tended⟩
    | .ok (some runner) =>
      refine (own_all (quiet_inward (calm_identityCheck _ _).inward) hinv₁).bind fun mismatch w₂ hresult => ?_
      obtain ⟨hdrift₂, hinv₂⟩ := hresult
      have hdrift := hdrift₁.trans hdrift₂
      cases mismatch with
      | some failure => exact ⟨hinv₂, hdrift.tended⟩
      | none =>
        have hput₂ : entry.runnerID = 0 → EntryOk s I entry w₂.log := fun hzero => hdrift.entryOk hlease (hput hzero)
        exact (removeFoundRegistration_own hlease hinv₂ hput₂ runner).mono fun failure w' h => ⟨h.1, hdrift.tended.trans h.2⟩

theorem own_ledger (op : Call) (hpart : op.part = .ledger) (hloud : op.loud = false) (habout : op.about = some (runnerName leaseID))
    (hguard : Guard s I exact op w) :
    Safe (Own s I exact leaseID) (ask op) (fun answer w' => Inv s I w' ∧
      (∃ choice w₁, World.exec op choice w = some (answer, w₁) ∧ WritesSucceed choice ∧ Inv s I w ∧ Drift leaseID w₁ w') ∧
      (Gone leaseID w → Gone leaseID w') ∧
      w'.state.workers.get (runnerName leaseID) = w.state.workers.get (runnerName leaseID) ∧
      (NeverRemoved (runnerName leaseID) w.log → NeverRemoved (runnerName leaseID) w'.log) ∧
      ∃ new, w'.log = new ++ w.log ∧ ∀ entry ∈ new, entry.loud = false) w := by
  refine own_ask hguard hloud (Or.inr habout) fun choice answer w₁ w' hallowed hexec hinv hdrift hinv' => ?_
  have hsame := World.exec_sameBut hexec
  rw [hpart] at hsame
  have hfleet : w₁.fleet = w.fleet := hsame.fleet (by simp)
  have hremoves : (LogEntry.call op answer).removes (runnerName leaseID) = false := by
    cases op <;> first | rfl | simp [Call.part] at hpart
  refine ⟨hinv', ⟨choice, w₁, hexec, hallowed.2.1, hinv, hdrift⟩, ?_, ?_, ?_, ?_⟩
  · intro hgone
    apply hdrift.gone
    unfold Gone
    rw [hfleet]
    exact hgone
  · rw [hdrift.record, hsame.state (by simp)]
  · intro hnever
    apply hdrift.neverRemoved
    rw [World.exec_log hexec]
    exact hnever.cons hremoves
  · obtain ⟨new, hnew, hquiet⟩ := hdrift.log
    refine ⟨new ++ [.call op answer], by rw [hnew, World.exec_log hexec]; simp, fun entry hentry => ?_⟩
    rcases List.mem_append.mp hentry with hentry | hentry
    · exact (hquiet entry hentry).2
    · rw [List.mem_singleton.mp hentry]
      exact hloud

theorem Inv.leaseID_of_get (hinv : Inv s I w)
    (h : w.journal.entries.get (runnerName leaseID) = some entry) : entry.leaseID = leaseID := by
  have hname : entry.runnerName = runnerName leaseID := Table.key_of_get h
  exact runnerName_injective ((hinv.entries entry (Table.mem_of_get h)).1.symm.trans hname)

theorem own_remove {name : String} (hname : name = runnerName leaseID) (hinv : Inv s I w)
    (h : exact → (∃ record, w.state.workers.get (runnerName leaseID) = some record) ∨ Gone leaseID w) :
    Safe (Own s I exact leaseID) (ask (.remove name)) (fun _ w' => Inv s I w' ∧ Tended leaseID w w') w := by
  subst hname
  have hguard : Guard s I exact (.remove (runnerName leaseID)) w := by
    intro hexact entry hentry
    rw [hinv.leaseID_of_get hentry]
    exact h hexact
  refine own_ask hguard rfl (Or.inr rfl) fun choice answer w₁ w' hallowed hexec _ hdrift hinv' => ⟨hinv', ?_⟩
  exact (tended_of_exec hexec rfl (by simp [Call.part]) (by simp [Call.part]) (by simp [Call.part])).drift hdrift

theorem chargeRetirement_own (hlease : entry.leaseID = leaseID) (now : Int) (w : World) :
    Safe (Own s I exact leaseID) (Scaler.chargeRetirement entry now) (fun failure w' => Inv s I w' ∧ failure = none ∧
      (Gone leaseID w → Gone leaseID w') ∧ ∃ new, w'.log = new ++ w.log ∧ ∀ entry ∈ new, entry.loud = false) w := by
  have hname : some (runnerName entry.leaseID) = some (runnerName leaseID) := by rw [hlease]
  unfold Scaler.chargeRetirement
  split
  · refine (own_ledger (.forfeit entry.leaseID now) rfl rfl hname trivial).mono fun failure w' hresult => ?_
    obtain ⟨hinv', ⟨choice, w₁, hexec, hwrites, _, _⟩, hgone, _, _, hlog⟩ := hresult
    refine ⟨hinv', ?_, hgone, hlog⟩
    obtain ⟨w₂, heffect, -⟩ := World.exec_eq_some_iff.mp hexec
    simp only [World.effect, World.onDisk_eq_some_iff, World.ledger, Prod.mk.injEq] at heffect
    obtain ⟨disk, rfl, rfl, -⟩ := heffect
    obtain rfl : disk = .ok := hwrites
    unfold UsageBudget.forfeit
    split <;> rfl
  · refine (own_ledger (.settleAt entry.leaseID entry.stoppedAt now) rfl rfl hname trivial).mono fun failure w' hresult => ?_
    obtain ⟨hinv', ⟨choice, w₁, hexec, hwrites, _, _⟩, hgone, _, _, hlog⟩ := hresult
    refine ⟨hinv', ?_, hgone, hlog⟩
    obtain ⟨w₂, heffect, -⟩ := World.exec_eq_some_iff.mp hexec
    simp only [World.effect, World.onDisk_eq_some_iff, World.ledger, Prod.mk.injEq] at heffect
    obtain ⟨disk, rfl, rfl, -⟩ := heffect
    obtain rfl : disk = .ok := hwrites
    unfold UsageBudget.settleAt
    split <;> rfl

/-- The lease is charged before its record goes, so it is covered again only with the record gone. -/
theorem closeRetirement_own (hname : entry.runnerName = runnerName leaseID) (hlease : entry.leaseID = leaseID)
    (hgone : exact → Gone leaseID w) :
    Safe (Own s I exact leaseID) (Scaler.closeRetirement entry) (fun _ w' => Inv s I w' ∧ Tended leaseID w w') w := by
  unfold Scaler.closeRetirement
  rw [hname]
  refine (own_skip rfl w).bind fun now w₁ hresult => ?_
  obtain ⟨hdrift₁, hinv₁⟩ := hresult
  refine (chargeRetirement_own hlease now w₁).bind fun failure w₂ hresult => ?_
  obtain ⟨hinv₂, hnone, hgone₂, new, hnew, hquiet⟩ := hresult
  subst hnone
  show Safe _ (ask (.state (.remove (runnerName leaseID))) >>= _) _ _
  rw [Prog.safe_bind]
  refine own_ask trivial rfl (Or.inr rfl) fun choice answer w₃ w₄ hallowed hexec _ hdrift₄ hinv₄ => ?_
  have htended : Tended leaseID w w₄ := by
    refine hdrift₁.tended.trans (Tended.drift ⟨Or.inl ?_, fun h => ?_, .call (.state (.remove (runnerName leaseID))) answer :: new, ?_, ?_⟩ hdrift₄)
    · obtain ⟨-, rfl⟩ := World.exec_of_effect rfl hexec
      exact Table.get_erase_self _ _
    · unfold Gone
      rw [(World.exec_sameBut hexec).fleet (by simp [Call.part])]
      exact hgone₂ h
    · rw [World.exec_log hexec, hnew]
      rfl
    · intro logged hlogged
      rcases List.mem_cons.mp hlogged with rfl | hlogged
      · rfl
      · exact hquiet logged hlogged
  refine (own_remove rfl hinv₄ fun hexact => Or.inr (htended.gone (hgone hexact))).bind fun failure w₅ hresult => ?_
  obtain ⟨hinv₅, htended₅⟩ := hresult
  cases failure with
  | some failure =>
    refine (own_skip rfl w₅).bind fun _ w₆ hresult => ?_
    obtain ⟨hdrift₆, hinv₆⟩ := hresult
    exact ⟨hinv₆, (htended.trans htended₅).drift hdrift₆⟩
  | none =>
    refine (own_all (quiet_inward calm_reportRetirements.inward) hinv₅).bind fun _ w₆ hresult => ?_
    obtain ⟨hdrift₆, hinv₆⟩ := hresult
    exact ⟨hinv₆, (htended.trans htended₅).drift hdrift₆⟩

theorem finishRetirement_own {present : Bool} (hname : entry.runnerName = runnerName leaseID)
    (hlease : entry.leaseID = leaseID) (hinv : Inv s I w) (hput : entry.runnerID = 0 → EntryOk s I entry w.log)
    (hpresent : present = true → worker.id = I.workerID leaseID ∧ Justified s I leaseID w)
    (habsent : present = false → exact → Gone leaseID w) :
    Safe (Own s I exact leaseID) (s.finishRetirement worker present entry) (fun _ w' => Inv s I w' ∧ Tended leaseID w w') w := by
  unfold Scaler.finishRetirement
  refine (own_all (quiet_inward (calm_identityCheck _ _).inward) hinv).bind fun mismatch w₁ hresult => ?_
  obtain ⟨hdrift₁, hinv₁⟩ := hresult
  cases mismatch with
  | some failure => exact ⟨hinv₁, hdrift₁.tended⟩
  | none =>
    have hdestroy : Safe (Own s I exact leaseID) (Scaler.destroyPresent worker present)
        (fun failure w' => Drift leaseID w w' ∧ Inv s I w' ∧ (exact → failure = none → Gone leaseID w')) w₁ := by
      unfold Scaler.destroyPresent
      split
      · rename_i htrue
        obtain ⟨hid, hjust⟩ := hpresent htrue
        refine (destroyWorker_own hid hinv₁ (hdrift₁.justified hjust)).mono fun failure w' h => ?_
        exact ⟨hdrift₁.trans h.1, h.2⟩
      · rename_i hfalse
        exact ⟨hdrift₁, hinv₁, fun hexact _ => hdrift₁.gone (habsent (by simpa using hfalse) hexact)⟩
    refine hdestroy.bind fun deleteErr w₂ hresult => ?_
    obtain ⟨hdrift₂, hinv₂, hgone₂⟩ := hresult
    cases deleteErr with
    | some failure =>
      refine (own_skip rfl w₂).bind fun _ w₃ hresult => ?_
      obtain ⟨hdrift₃, hinv₃⟩ := hresult
      exact ⟨hinv₃, (hdrift₂.trans hdrift₃).tended⟩
    | none =>
      have hput₂ : entry.runnerID = 0 → EntryOk s I entry w₂.log := fun hzero => hdrift₂.entryOk hlease (hput hzero)
      refine (removeRunnerRegistration_own hlease hinv₂ hput₂).bind fun failure w₃ hresult => ?_
      obtain ⟨hinv₃, htended₃⟩ := hresult
      have htended : Tended leaseID w w₃ := hdrift₂.tended.trans htended₃
      cases failure with
      | some failure =>
        refine (own_skip rfl w₃).bind fun _ w₄ hresult => ?_
        obtain ⟨hdrift₄, hinv₄⟩ := hresult
        exact ⟨hinv₄, htended.drift hdrift₄⟩
      | none =>
        refine (closeRetirement_own hname hlease fun hexact => htended₃.gone (hgone₂ hexact rfl)).mono fun _ w' h => ?_
        exact ⟨h.1, htended.trans h.2⟩

theorem retireWorker_own (hworker : worker.Carries I leaseID) {present : Bool} {disposition : BudgetDisposition}
    {stoppedAt : Int} (hwarrant : Warrant s I leaseID w.log disposition) (habsent : present = false → exact → Gone leaseID w) :
    Safe (Own s I exact leaseID) (s.retireWorker worker present disposition stoppedAt)
      (fun _ w' => Inv s I w' ∧ Tended leaseID w w') w := by
  unfold Scaler.retireWorker
  refine (own_skip rfl w).bind fun now w₁ hresult => ?_
  obtain ⟨hdrift₁, hinv₁⟩ := hresult
  have hok : EntryOk s I (s.retirementOf worker disposition stoppedAt now) w₁.log := by
    refine ⟨hworker.name.trans (congrArg runnerName hworker.lease.symm), ?_⟩
    show Warrant s I worker.leaseID w₁.log disposition
    rw [hworker.lease]
    exact hdrift₁.warrant hwarrant
  refine (own_put hworker.lease hok).bind fun failure w₂ hresult => ?_
  obtain ⟨hinv₂, htended₂, hok₂, hpending⟩ := hresult
  have htended : Tended leaseID w w₂ := hdrift₁.tended.trans htended₂
  cases failure with
  | some failure =>
    refine (own_skip rfl w₂).bind fun _ w₃ hresult => ?_
    obtain ⟨hdrift₃, hinv₃⟩ := hresult
    exact ⟨hinv₃, htended.drift hdrift₃⟩
  | none =>
    refine (own_all (quiet_inward calm_reportRetirements.inward) hinv₂).bind fun _ w₃ hresult => ?_
    obtain ⟨hdrift₃, hinv₃⟩ := hresult
    have hlease : (s.retirementOf worker disposition stoppedAt now).leaseID = leaseID := hworker.lease
    have hjust : Justified s I leaseID w₂ := by
      have hwarrant₂ := hok₂.2
      rw [hlease] at hwarrant₂
      cases disposition with
      | forfeitReservation => exact Or.inl ⟨hwarrant₂, hpending rfl⟩
      | settleActualUsage => exact Or.inr hwarrant₂
    refine Safe.bind (finishRetirement_own hworker.name hlease hinv₃ (fun _ => hdrift₃.entryOk hlease hok₂)
      (fun _ => ⟨hworker.id, hdrift₃.justified hjust⟩) fun hfalse hexact => (htended.drift hdrift₃).gone (habsent hfalse hexact)) ?_
    refine fun failure w₄ hresult => ?_
    obtain ⟨hinv₄, htended₄⟩ := hresult
    exact ⟨hinv₄, (htended.drift hdrift₃).trans htended₄⟩

end Custody

end RunnerYard
