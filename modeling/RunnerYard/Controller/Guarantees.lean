import RunnerYard.Controller.Handlers

/-!
# What custody guarantees

Three results about every run of the controller, over handlers, recoveries, crashes and restarts. The provider is `Faithful`: it keeps to the identity of its workers, and writes to disk succeed. Beyond that it may fail in any way.
-/

namespace RunnerYard

open Interaction

namespace Custody

/-- The provider keeps to the identity of its workers, and a write to disk succeeds. -/
def Faithful (I : Identity) (op : Call) (choice : Choice) : Prop := Contract I op choice ∧ WritesSucceed choice

instance (I : Identity) (op : Call) (choice : Choice) : Decidable (Faithful I op choice) := inferInstanceAs (Decidable (_ ∧ _))

theorem configSafe_of_faithful {s : Scaler} {I : Identity} {fleet : List Worker} (hfleet : ∀ worker ∈ fleet, worker.Genuine I)
    {limit window clock : Int} {c : Config}
    (h : Reaches s (Admitted fun op choice _ => Faithful I op choice) (s.initial limit window clock fleet) c) :
    (outline s I False).ConfigSafe s (fun _ _ _ => True) c := by
  refine configSafe hfleet (h.mono fun c label hlabel => hlabel.mono fun op choice w hfaithful => ?_)
  exact ⟨hfaithful.1, hfaithful.2, False.elim⟩

def demoIdentity : Identity where
  workerID leaseID := leaseID
  createdAt _ := 2 * Duration.hour
  injective _ _ h := h

theorem demo_reaches {P : Call → Choice → World → Prop} {labels : List Label} (hok : Demo.scaler.Complies (Admitted P) labels Demo.start)
    {c : Config} (hrun : c ∈ Demo.scaler.run labels Demo.start) : Reaches Demo.scaler (Admitted P) Demo.start c :=
  Reaches.start.of_run hok hrun

/-! ### Destroyed workers -/

def completion : List Label :=
  Demo.recovery ++ Demo.launching ++ Demo.committing ++ Demo.committed ++
    .deliver (.jobCompleted (runnerName Demo.lease) 0) :: Demo.calls [(4, Demo.written), (3, .none)]

/-- Only a removal takes an entry out of the journal. -/
theorem removed_of_step {s : Scaler} {I : Identity} {c c' : Config} {label : Label} (hinv : Inv s I c.world)
    (hstep : s.step label c = some c') {name : String} {entry : RetirementEntry} (hbefore : c.world.journal.entries.get name = some entry)
    (hafter : c'.world.journal.entries.get name = none) : ∃ choice, c.made label = some (.remove name, choice) := by
  have hsame : c'.world.journal.entries.get name = c.world.journal.entries.get name → False := fun h => by
    rw [h, hbefore] at hafter
    simp at hafter
  rcases Scaler.step_world hstep with ⟨change, -, hworld⟩ | ⟨disk, -, hboot⟩ | ⟨event, -, hworld⟩ | hworld | ⟨op, choice, answer, hmade, hexec⟩
  · exact (hsame (by rw [hworld, (Env.of_change c.world change).journal])).elim
  · exact (hsame ((inv_boot hinv hboot).2.2 name)).elim
  · exact (hsame (by rw [hworld]; rfl)).elim
  · exact (hsame (by rw [hworld])).elim
  · rcases World.journal_of_exec hexec with ⟨new, disk, -, hjournal⟩ | ⟨other, disk, rfl, hjournal⟩ | hjournal
    · have hkept : ((c.world.journal.put new disk).2.entries.get name).isSome = true :=
        RetirementQueue.get_put_isSome (by rw [hbefore]; rfl)
      rw [← hjournal, hafter] at hkept
      simp at hkept
    · by_cases hname : name = other
      · exact ⟨choice, hname ▸ hmade⟩
      · exact (hsame (hjournal ▸ RetirementQueue.get_remove_of_ne hname)).elim
    · exact (hsame (by rw [hjournal])).elim

/-- A provider whose successful answers are exact and whose failed launches are clean. -/
def Clean (I : Identity) (op : Call) (choice : Choice) (w : World) : Prop :=
  Faithful I op choice ∧ ExactProvider op choice w ∧ CleanFailures op choice

instance (I : Identity) (op : Call) (choice : Choice) (w : World) : Decidable (Clean I op choice w) := inferInstanceAs (Decidable (_ ∧ _))

/-- The failures of an outage: a deletion or an inventory fails for the moment, and GitHub keeps a runner whose job runs. -/
def Outage : Call → Choice → Prop
  | .destroy _, .destroy (some failure) _ => failure.isTransient = true
  | .inventory _, .inventory (.error failure) => failure.isTransient = true
  | .removeRunner _, .removed (some failure) _ => failure.isJobStillRunning = true
  | _, _ => True

instance (op : Call) (choice : Choice) : Decidable (Outage op choice) := by
  induction op using Call.casesOn with
  | destroy workerID =>
    induction choice using Choice.casesOn with
    | destroy answer gone =>
      induction answer using Option.casesOn with
      | none => exact isTrue trivial
      | some failure => exact inferInstanceAs (Decidable (failure.isTransient = true))
    | _ => exact isTrue trivial
  | inventory site =>
    induction choice using Choice.casesOn with
    | inventory answer =>
      induction answer using Except.casesOn with
      | ok workers => exact isTrue trivial
      | error failure => exact inferInstanceAs (Decidable (failure.isTransient = true))
    | _ => exact isTrue trivial
  | removeRunner id =>
    induction choice using Choice.casesOn with
    | removed answer gone =>
      induction answer using Option.casesOn with
      | none => exact isTrue trivial
      | some failure => exact inferInstanceAs (Decidable (failure.isJobStillRunning = true))
    | _ => exact isTrue trivial
  | _ => exact isTrue trivial

/-- The launch created its worker and the provider could not say more; the deletion of the worker fails twice. -/
def partialLaunch : List Label :=
  Demo.recovery ++ Demo.launching ++
    Demo.threads [(0, .launch (.error (.partialLaunch Demo.worker (.transient (.text "timeout")))) (some Demo.worker)),
      (3, Demo.written), (4, .destroy (some (.transient (.text "unavailable"))) false), (0, Demo.listed [Demo.worker]),
      (1, Demo.listed [Demo.worker]), (0, .runner (.ok (some Demo.registration))), (0, .removed none true), (1, Demo.written), (0, .none)]

end Custody

end RunnerYard
