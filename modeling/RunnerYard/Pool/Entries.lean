import Mathlib.Logic.Relation
import RunnerYard.Pool.Effects

/-!
# What a section does to one host

`Effects` follows what the custody of a machine rests on, for listings that name no host twice. Here the whole entry of a host is followed and a listing may be anything, so that a section may touch a host more than once: `effect_steps` takes what it does apart into `EntryStep`s.
-/

namespace RunnerYard

open Relation

namespace Pool

def HostState.settled (h : HostState) : HostState :=
  { h with slots := .empty, reserved := .empty, emptySince := 0, lastContact := 0, lastListed := 0, notBefore := 0 }

/-- One change of the entry for one key, by a section that starts from the pool `p`. -/
inductive EntryStep (cfg : Config) (now : Int) (p : Pool) : Call → Option HostState → Option HostState → Prop
  | found {started : Int} {listed : List Host} {host : Host} (hmem : host ∈ listed) (hvalid : validID host.id = true) :
      EntryStep cfg now p (.applyHosts started listed) none (some (found cfg now host))
  | relisted {started : Int} {listed : List Host} {host : Host} {h : HostState} (hmem : host ∈ listed) (hid : host.id = h.id) :
      EntryStep cfg now p (.applyHosts started listed) (some h) (some ((relisted cfg started now host h).withID h.id))
  | unlisted {started : Int} {listed : List Host} {h : HostState} (hkeeps : keeps started listed h = false) :
      EntryStep cfg now p (.applyHosts started listed) (some h) none
  | probed {results : List (Host × Except Err HostInfo)} {h : HostState} (info : HostInfo) :
      EntryStep cfg now p (.applyInfos results) (some h) (some ((probed cfg p now info h).withID h.id))
  | served {op : Call} {h h' : HostState} (hsame : h'.settled = h.settled) : EntryStep cfg now p op (some h) (some h')
  | refused {reason : String} {h : HostState} (hphase : h.phase = .ready) :
      EntryStep cfg now p (.refuseHost h.id reason) (some h)
        (some { h with notBefore := now + hostRefusalBackoff, phase := .draining, drainReason := some .imageMismatch })
  | drained {h : HostState} (hdue : ¬now < p.replaceNotBefore) (hfree : p.hosts.rows.any delaysReplacement = false)
      (hcandidate : p.staleCandidate cfg = some h) :
      EntryStep cfg now p .replaceStale (some h) (some { h with phase := .draining, drainReason := some .imageStale })
  | claimed {h : HostState} {r : Reason × Bool} (hreason : p.returnReason cfg now (p.baseHosts cfg) h = some r) :
      EntryStep cfg now p .returnCandidates (some h) (some (leaving r.2 h))
  | discarded {h : HostState} (hphase : h.phase = .stopped) : EntryStep cfg now p .returnCandidates (some h) (some (leaving false h))
  | restored {previous : Phase} {h : HostState} (hphase : h.phase = .deleting ∨ h.phase = .stopping) :
      EntryStep cfg now p (.restorePhase h.id previous) (some h) (some { h with phase := previous })
  | forgotten {h : HostState} : EntryStep cfg now p (.forget h.id) (some h) none
  | halted {h : HostState} : EntryStep cfg now p (.hostStoppedAt h.id) (some h) (some { markStopped now h with changedAt := now })
  | starting {h : HostState} (hphase : h.phase = .stopped) : EntryStep cfg now p .grow (some h) (some (startingHost now h))
  | placeholder {e : Option HostState} (seq : Nat) : EntryStep cfg now p .grow e (some (creatingHost now seq))
  | startFailed {err : Err} {h : HostState} (failures : Int) :
      EntryStep cfg now p (.startFinished h.id (some err)) (some h)
        (some { h with changedAt := now, phase := .stopped, startFailures := failures, notBefore := now + hostRefusalBackoff })
  | started {h : HostState} :
      EntryStep cfg now p (.startFinished h.id none) (some h)
        (some
          { h with
            changedAt := now
            phase := .booting
            bootSince := now
            runningSince := now
            ownBoot := true
            everReady := false
            startedByPool := true
            lastContact := 0
            stoppedSince := 0
            notBefore := 0 })
  | finished {image : String} {result : Except Err Host} {h : HostState} : EntryStep cfg now p (.createFinished h.id image result) (some h) none
  | adopted {key image : String} {host : Host} {h : HostState} (hid : host.id = h.id) :
      EntryStep cfg now p (.createFinished key image (.ok host)) (some h) (some { h with host, ownBoot := true, createdImage := image })
  | created {key image : String} {host : Host} (hvalid : validID host.id = true) :
      EntryStep cfg now p (.createFinished key image (.ok host)) none (some (createdHost now image host))

abbrev EntrySteps (cfg : Config) (now : Int) (p : Pool) (op : Call) := ReflTransGen (EntryStep cfg now p op)

variable {cfg : Config} {now : Int} {p q : Pool} {op : Call}

theorem steps_update {id : String} {f : HostState → HostState}
    (hstep : ∀ h, q.hosts.get id = some h → EntryStep cfg now p op (some h) (some ((f h).withID h.id))) (k : String) :
    EntrySteps cfg now p op (q.hosts.get k) ((q.update id f).hosts.get k) := by
  rw [get_update]
  split
  · rename_i heq
    subst heq
    cases hget : q.hosts.get k with
    | none => exact .refl
    | some h => exact .single (hstep h hget)
  · exact .refl

theorem steps_forget {id : String} (hstep : ∀ h, q.hosts.get id = some h → EntryStep cfg now p op (some h) none) (k : String) :
    EntrySteps cfg now p op (q.hosts.get k) ((q.forget id).hosts.get k) := by
  rw [forget, Table.get_erase]
  split
  · rename_i heq
    subst heq
    cases hget : q.hosts.get k with
    | none => exact .refl
    | some h => exact .single (hstep h hget)
  · exact .refl

theorem steps_applyHosts (started : Int) (listed : List Host) (k : String) :
    EntrySteps cfg now p (.applyHosts started listed) (p.hosts.get k) ((applyHosts cfg started now listed p).hosts.get k) := by
  have hseen : EntrySteps cfg now p (.applyHosts started listed) (p.hosts.get k) ((listed.foldl (see cfg started now) p).hosts.get k) := by
    refine List.foldlRecOn (motive := fun q : Pool => EntrySteps cfg now p (.applyHosts started listed) (p.hosts.get k) (q.hosts.get k))
      listed _ .refl fun q hq host hmem => hq.trans ?_
    rw [get_see]
    split
    · rename_i hhost
      obtain ⟨hvalid, rfl⟩ := hhost
      cases hget : q.hosts.get host.id with
      | none => exact .single (.found hmem hvalid)
      | some h => exact .single (.relisted hmem (Table.key_of_get hget).symm)
    · exact .refl
  refine hseen.trans ?_
  unfold applyHosts
  rw [Table.get_filter]
  cases (listed.foldl (see cfg started now) p).hosts.get k with
  | none => exact .refl
  | some h =>
    rw [Option.filter_some]
    split
    · exact .refl
    · rename_i hkeeps
      exact .single (.unlisted (by simpa using hkeeps))

theorem settled_relist (slots : List Slot) (h : HostState) : ((relist now slots h).withID h.id).settled = h.settled := by
  unfold relist
  extract_lets h₁
  split
  · split <;> rfl
  · rfl

theorem settled_cleared (slot : Int) (leaseID : String) (h : HostState) :
    ((let h' : HostState := match h.slots.get slot with
        | some current => if current.leaseID = leaseID || current.leaseID = "" then { h with slots := h.slots.erase slot } else h
        | none => h
      if h'.vacant && h'.emptySince = 0 then { h' with emptySince := now } else h').withID h.id).settled = h.settled := by
  extract_lets h'
  have hsame : h'.settled = h.settled := by
    unfold h'
    split
    · split <;> rfl
    · rfl
  rw [← hsame]
  have hid := congrArg HostState.id hsame
  change h'.id = h.id at hid
  split
  · rw [← hid]
    rfl
  · rw [← hid]
    rfl

theorem steps_grow (k : String) : EntrySteps cfg now p .grow (p.hosts.get k) ((grow cfg now p).2.hosts.get k) := by
  unfold grow
  extract_lets starts creates
  have hstarts : EntrySteps cfg now p .grow (p.hosts.get k) (starts.2.2.hosts.get k) := by
    rcases get_growStarts cfg now (p.wanted cfg) { p with demand := 0 } k with heq | ⟨h, hget, hphase, hlast⟩
    · rw [show starts.2.2.hosts.get k = p.hosts.get k from heq]
    · rw [show starts.2.2.hosts.get k = _ from hlast, show p.hosts.get k = some h from hget]
      exact .single (.starting hphase)
  refine hstarts.trans ?_
  rcases get_growCreates now (creations cfg now starts.2.1 starts.2.2) starts.2.2 k with heq | ⟨seq, -, hlast⟩
  · rw [show creates.2.hosts.get k = _ from heq]
  · rw [show creates.2.hosts.get k = _ from hlast]
    exact .single (.placeholder seq)

theorem steps_createFinished (key image : String) (result : Except Err Host) (k : String) :
    EntrySteps cfg now p (.createFinished key image result) (p.hosts.get k) ((createFinished now key image result p).hosts.get k) := by
  have hforget : EntrySteps cfg now p (.createFinished key image result) (p.hosts.get k) ((p.forget key).hosts.get k) := by
    refine steps_forget (fun h hget => ?_) k
    rw [← Table.key_of_get hget]
    exact .finished
  refine hforget.trans ?_
  unfold createFinished
  extract_lets q backoff q₁ q₂
  cases result with
  | error err =>
    dsimp only
    have hhosts : q₁.hosts = q.hosts := by
      unfold q₁
      split <;> rfl
    split <;> rw [hhosts]
  | ok host =>
    dsimp only
    split
    · exact .refl
    rename_i hvalid
    split
    · refine steps_update (q := q₂) (fun h hget => ?_) k
      exact .adopted (Table.key_of_get hget).symm
    · rename_i hnone
      rw [Table.get_put]
      split
      · rename_i hk
        have hk' : k = host.id := hk
        subst hk'
        rw [show q.hosts.get host.id = none by simpa using hnone]
        exact .single (.created (by simpa using hvalid))
      · exact .refl

def servesCurrent (cfg : Config) (p : Pool) : Bool := p.hosts.rows.any fun h => h.phase = .ready && !p.stale cfg h.info.image

/-- What `replaceStale` does: nothing, or it drains the host it has chosen while no other is on its way in or out. -/
theorem replaceStale_cases (cfg : Config) (now : Int) (p : Pool) :
    replaceStale cfg now p = p ∨
      ∃ h, p.staleCandidate cfg = some h ∧ ¬now < p.replaceNotBefore ∧ p.hosts.rows.any delaysReplacement = false ∧
        (p.imageFailed = true → p.servesCurrent cfg = true) ∧ replaceStale cfg now p =
          { p.update h.id fun h => { h with phase := .draining, drainReason := some .imageStale } with replaceNotBefore := now + replaceInterval } := by
  unfold replaceStale
  split
  · exact Or.inl rfl
  rename_i hdue
  simp only [Bool.or_eq_true, decide_eq_true_eq, not_or, Bool.not_eq_true] at hdue
  extract_lets current
  split
  · exact Or.inl rfl
  rename_i candidate hcandidate
  split
  · exact Or.inl rfl
  rename_i hbrake
  have hcurrent : current = p.servesCurrent cfg := rfl
  refine Or.inr ⟨candidate, hcandidate, hdue.1.2, hdue.2, fun hfailed => ?_, rfl⟩
  simpa [hfailed, hcurrent] using hbrake

theorem steps_replaceStale (k : String) : EntrySteps cfg now p .replaceStale (p.hosts.get k) ((replaceStale cfg now p).hosts.get k) := by
  rcases replaceStale_cases cfg now p with heq | ⟨candidate, hcandidate, hdue, hfree, -, heq⟩
  · rw [heq]
  · rw [heq]
    refine steps_update (q := p) (fun h hget => ?_) k
    rw [Table.get_of_mem (staleCandidate_spec hcandidate).2, Option.some.injEq] at hget
    subst hget
    exact .drained hdue hfree hcandidate

theorem steps_returnCandidates (k : String) :
    EntrySteps cfg now p .returnCandidates (p.hosts.get k) ((returnCandidates cfg now p).2.hosts.get k) := by
  cases hget : p.hosts.get k with
  | none =>
    unfold returnCandidates
    rw [get_each, get_returnIdle, hget]
    exact .refl
  | some h =>
    have hkey : h.id = k := Table.key_of_get hget
    subst hkey
    cases hreason : p.returnReason cfg now (p.baseHosts cfg) h with
    | some r =>
      rw [get_returnCandidates_idle hget hreason]
      exact .single (.claimed hreason)
    | none =>
      unfold returnCandidates
      rw [get_each, get_returnIdle, hget, Option.map_some, Option.map_some, hreason, Option.elim_none]
      split
      · rename_i hstopped
        obtain ⟨s, hs, hid⟩ := List.any_eq_true.mp hstopped
        obtain ⟨hold, hphase, -⟩ := get_returnCandidates_stopped hs
        rw [show s.1.id = h.id from of_decide_eq_true hid, hget, Option.some.injEq] at hold
        rw [← hold] at hphase
        exact .single (.discarded hphase)
      · exact .refl

theorem hosts_followed (resolved : Except Err String) (p : Pool) : (followed cfg now resolved p).hosts = p.hosts := by
  unfold followed
  split
  · split
    · rfl
    · split <;> rfl
  · rfl

/-! ### What a section keeps beside the hosts -/

structure Course where
  replaceNotBefore : Int
  image : String
  imageResolved : Bool
  imageFailed : Bool

def course (p : Pool) : Course where
  replaceNotBefore := p.replaceNotBefore
  image := p.image
  imageResolved := p.imageResolved
  imageFailed := p.imageFailed

theorem course_update (p : Pool) (id : String) (f : HostState → HostState) : (p.update id f).course = p.course := by
  unfold update
  split <;> rfl

theorem course_see (started now : Int) (p : Pool) (host : Host) : (see cfg started now p host).course = p.course := by
  unfold see
  split
  · rfl
  · split
    · exact course_update p _ _
    · rfl

theorem course_growStarts (cfg : Config) (now : Int) (want : Nat) (p : Pool) : (growStarts cfg now want p).2.2.course = p.course := by
  induction want generalizing p with
  | zero => rfl
  | succ want ih =>
    rw [growStarts]
    split
    · rfl
    · exact (ih _).trans (course_update p _ _)

theorem course_growCreates (now : Int) (want : Nat) (p : Pool) : (growCreates now want p).2.course = p.course := by
  induction want generalizing p with
  | zero => rfl
  | succ want ih => exact ih _

/-- The sections that change where the replacement stands. -/
def Call.steers : Call → Bool
  | followed _ | replaceStale | returnCandidates | createFinished _ _ _ => true
  | _ => false

theorem course_effect (cfg : Config) (now : Int) (p : Pool) (hop : op.steers = false) : (effect cfg now op p).course = p.course := by
  have hfold : ∀ {α : Type} (l : List α) (f : Pool → α → Pool), (∀ q x, (f q x).course = q.course) → (l.foldl f p).course = p.course := by
    intro α l f hf
    refine List.foldlRecOn (motive := fun q : Pool => q.course = p.course) l f rfl fun q hq x _ => (hf q x).trans hq
  cases op with
  | applyHosts started listed => exact hfold listed _ (course_see started now)
  | applyInfos results =>
    refine hfold results _ fun q r => ?_
    obtain ⟨host, answer⟩ := r
    cases answer
    · rfl
    · exact course_update q _ _
  | applySlots results =>
    refine hfold (results.map fun r => (r.host, r.answer)) _ fun q r => ?_
    obtain ⟨host, answer⟩ := r
    cases answer
    · rfl
    · exact course_update q _ _
  | cleared hostID slot leaseID => exact course_update p _ _
  | reserve leaseID =>
    show (reserve cfg now leaseID p).2.course = p.course
    unfold reserve
    split
    · rfl
    · exact course_update p _ _
  | release hostID slot => exact course_update p _ _
  | commit hostID slot started lease => exact course_update p _ _
  | holdSuspect hostID slot lease => exact course_update p _ _
  | markForeign hostID slot => exact course_update p _ _
  | refuseHost hostID reason => exact course_update p _ _
  | restorePhase hostID previous => exact course_update p _ _
  | hostStoppedAt hostID => exact course_update p _ _
  | grow => exact (course_growCreates now _ _).trans (course_growStarts cfg now _ _)
  | startFinished id result =>
    show (startFinished now id result p).course = p.course
    unfold startFinished
    split
    · rfl
    · cases result <;> exact course_update p _ _
  | followed resolved => cases hop
  | replaceStale => cases hop
  | returnCandidates => cases hop
  | createFinished key image result => cases hop
  | _ => rfl

theorem effect_steps (cfg : Config) (now : Int) (op : Call) (p : Pool) (k : String) :
    EntrySteps cfg now p op (p.hosts.get k) ((effect cfg now op p).hosts.get k) := by
  cases op with
  | applyHosts started listed => exact steps_applyHosts started listed k
  | applyInfos results =>
    refine List.foldlRecOn (motive := fun q : Pool => EntrySteps cfg now p (.applyInfos results) (p.hosts.get k) (q.hosts.get k))
      results _ .refl fun q hq r _ => hq.trans ?_
    obtain ⟨host, answer⟩ := r
    cases answer with
    | error err => exact .refl
    | ok info => exact steps_update (fun h _ => .probed info) k
  | applySlots results =>
    refine List.foldlRecOn (motive := fun q : Pool => EntrySteps cfg now p (.applySlots results) (p.hosts.get k) (q.hosts.get k))
      (results.map fun r => (r.host, r.answer)) _ .refl fun q hq r _ => hq.trans ?_
    obtain ⟨host, answer⟩ := r
    cases answer with
    | error err => exact .refl
    | ok slots => exact steps_update (fun h _ => .served (settled_relist slots h)) k
  | cleared hostID slot leaseID => exact steps_update (fun h _ => .served (settled_cleared slot leaseID h)) k
  | reserve leaseID =>
    show EntrySteps cfg now p _ _ ((reserve cfg now leaseID p).2.hosts.get k)
    unfold reserve
    split
    · exact .refl
    · refine steps_update (fun h _ => .served ?_) k
      rfl
  | release hostID slot =>
    refine steps_update (fun h _ => .served ?_) k
    rfl
  | commit hostID slot started lease =>
    refine steps_update (fun h _ => .served ?_) k
    rfl
  | holdSuspect hostID slot lease =>
    refine steps_update (fun h _ => .served ?_) k
    rfl
  | markForeign hostID slot =>
    refine steps_update (fun h _ => .served ?_) k
    split <;> rfl
  | refuseHost hostID reason =>
    refine steps_update (fun h hget => ?_) k
    rw [← Table.key_of_get hget]
    split
    · rename_i hready
      simp only [Bool.and_eq_true, decide_eq_true_eq] at hready
      exact .refused hready.2
    · exact .served rfl
  | followed resolved =>
    show EntrySteps cfg now p _ _ ((followed cfg now resolved p).hosts.get k)
    rw [hosts_followed]
  | replaceStale => exact steps_replaceStale k
  | returnCandidates => exact steps_returnCandidates k
  | restorePhase hostID previous =>
    refine steps_update (fun h hget => ?_) k
    rw [← Table.key_of_get hget]
    split
    · rename_i hphase
      simp only [Bool.or_eq_true, decide_eq_true_eq] at hphase
      exact .restored hphase
    · exact .served rfl
  | forget hostID =>
    refine steps_forget (fun h hget => ?_) k
    rw [← Table.key_of_get hget]
    exact .forgotten
  | hostStoppedAt hostID =>
    refine steps_update (fun h hget => ?_) k
    rw [← Table.key_of_get hget]
    exact .halted
  | grow => exact steps_grow k
  | startFinished id result =>
    show EntrySteps cfg now p _ _ ((startFinished now id result p).hosts.get k)
    unfold startFinished
    split
    · exact .refl
    · cases result with
      | some err =>
        refine steps_update (q := p) (fun h hget => ?_) k
        rw [← Table.key_of_get hget]
        exact .startFailed _
      | none =>
        refine steps_update (q := p) (fun h hget => ?_) k
        rw [← Table.key_of_get hget]
        exact .started
  | createFinished key image result => exact steps_createFinished key image result k
  | _ => exact .refl

/-! ### What a change keeps of a host -/

theorem HostState.settled_eq {h h' : HostState} (hsame : h'.settled = h.settled) :
    h'.id = h.id ∧ h'.host = h.host ∧ h'.phase = h.phase ∧ h'.drainReason = h.drainReason ∧ h'.firstSeen = h.firstSeen ∧ h'.changedAt = h.changedAt := by
  simp only [HostState.settled, HostState.mk.injEq] at hsame
  obtain ⟨hid, hhost, hphase, -, -, -, hseen, -, -, -, -, -, -, hdrain, -, -, -, -, -, hchanged, -⟩ := hsame
  exact ⟨hid, hhost, hphase, hdrain, hseen, hchanged⟩

theorem found_spec (cfg : Config) (now : Int) (host : Host) :
    (Pool.found cfg now host).host = host ∧ (Pool.found cfg now host).drainReason = none ∧ (Pool.found cfg now host).firstSeen = now ∧
      ((Pool.found cfg now host).phase = .booting ∨ (Pool.found cfg now host).phase = .stopped) := by
  unfold Pool.found
  split
  · exact ⟨rfl, rfl, rfl, Or.inr rfl⟩
  · exact ⟨rfl, rfl, rfl, Or.inl rfl⟩

theorem relisted_spec (cfg : Config) (started now : Int) (host : Host) (h : HostState) :
    (Pool.relisted cfg started now host h).host = host ∧ (Pool.relisted cfg started now host h).drainReason = h.drainReason ∧
      (Pool.relisted cfg started now host h).firstSeen = h.firstSeen ∧ (Pool.relisted cfg started now host h).changedAt = h.changedAt ∧
      ((Pool.relisted cfg started now host h).phase = h.phase ∨
        h.changedAt ≤ started ∧ ((Pool.relisted cfg started now host h).phase = .stopped ∨ (Pool.relisted cfg started now host h).phase = .booting)) := by
  unfold Pool.relisted reconcile
  extract_lets h₁
  split
  · exact ⟨rfl, rfl, rfl, rfl, Or.inl rfl⟩
  rename_i hchanged
  have hchanged : h.changedAt ≤ started := Int.not_lt.mp hchanged
  split
  · exact ⟨rfl, rfl, rfl, rfl, Or.inl rfl⟩
  split
  · split
    · exact ⟨rfl, rfl, rfl, rfl, Or.inr ⟨hchanged, Or.inl rfl⟩⟩
    · exact ⟨rfl, rfl, rfl, rfl, Or.inr ⟨hchanged, Or.inl rfl⟩⟩
  split
  · exact ⟨rfl, rfl, rfl, rfl, Or.inr ⟨hchanged, Or.inr rfl⟩⟩
  · exact ⟨rfl, rfl, rfl, rfl, Or.inl rfl⟩

theorem probed_spec (cfg : Config) (p : Pool) (now : Int) (info : HostInfo) (h : HostState) :
    (Pool.probed cfg p now info h).host = h.host ∧ (Pool.probed cfg p now info h).firstSeen = h.firstSeen ∧
      (Pool.probed cfg p now info h).changedAt = h.changedAt ∧
      ((Pool.probed cfg p now info h).drainReason = h.drainReason ∧
          ((Pool.probed cfg p now info h).phase = h.phase ∨ (Pool.probed cfg p now info h).phase = .ready) ∨
        (Pool.probed cfg p now info h).drainReason = some .imageMismatch) := by
  unfold Pool.probed
  split
  · exact ⟨rfl, rfl, rfl, Or.inl ⟨rfl, Or.inl rfl⟩⟩
  split
  · exact ⟨rfl, rfl, rfl, Or.inr rfl⟩
  split
  · exact ⟨rfl, rfl, rfl, Or.inl ⟨rfl, Or.inr rfl⟩⟩
  · exact ⟨rfl, rfl, rfl, Or.inl ⟨rfl, Or.inl rfl⟩⟩

theorem effect_induction {R : Option HostState → Option HostState → Prop} (hrefl : ∀ e, R e e) (htrans : ∀ {a b c}, R a b → R b c → R a c)
    (hstep : ∀ e e', EntryStep cfg now p op e e' → R e e') (k : String) : R (p.hosts.get k) ((effect cfg now op p).hosts.get k) := by
  have hsteps := effect_steps cfg now op p k
  generalize (effect cfg now op p).hosts.get k = e at hsteps
  induction hsteps with
  | refl => exact hrefl _
  | tail _ hlast ih => exact htrans ih (hstep _ _ hlast)

theorem pool_of_exec {choice : Choice} {w w' : World} {answer : op.Ans} (h : World.exec cfg op choice w = some (answer, w')) :
    w'.pool = effect cfg w.clock op w.pool := by
  cases exec_executed h with
  | locked => rfl
  | made => rfl
  | deleted => rfl
  | changed hget hmove => cases hmove <;> rfl

theorem exec_induction {R : Option HostState → Option HostState → Prop} (hrefl : ∀ e, R e e) (htrans : ∀ {a b c}, R a b → R b c → R a c)
    {choice : Choice} {w w' : World} {answer : op.Ans} (h : World.exec cfg op choice w = some (answer, w'))
    (hstep : ∀ e e', EntryStep cfg w.clock w.pool op e e' → R e e') (k : String) : R (w.pool.hosts.get k) (w'.pool.hosts.get k) := by
  rw [pool_of_exec h]
  exact effect_induction hrefl htrans hstep k

end Pool

end RunnerYard
