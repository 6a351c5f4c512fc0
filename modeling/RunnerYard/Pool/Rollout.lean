import RunnerYard.Pool.Entries
import RunnerYard.Pool.System

/-!
# Replacing hosts on an earlier image

When the followed tag moves, `replaceStale` drains the hosts on the earlier image one after another. A host that is drained leaves that phase and comes back to it when its deletion fails, and keeps the reason through a stop and a start that the pool did not make, so that "one at a time" is a property of the maintenance loop and not of one section: while it returns hosts, at most one of them can come back as drained for its image. `rollout` is the outline that says so.
-/

namespace RunnerYard

open Interaction Prog

namespace Pool

/-- Drained for an image that the tag no longer names. -/
def HostState.drainsStale (h : HostState) : Bool := h.phase = .draining && h.drainReason = some .imageStale

def HostState.leavesStale (h : HostState) : Bool :=
  (h.phase = .draining || h.phase = .deleting || h.phase = .stopping) && h.drainReason = some .imageStale

theorem HostState.leavesStale_of_drainsStale {h : HostState} (hdrains : h.drainsStale = true) : h.leavesStale = true := by
  simp only [drainsStale, Bool.and_eq_true, decide_eq_true_eq] at hdrains
  simp [leavesStale, hdrains]

/-- The sections that drain a host for its image, take it, or give it back its phase. -/
def Call.manages : Call → Bool
  | replaceStale | returnCandidates | restorePhase _ _ => true
  | _ => false

def Tame (e e' : Option HostState) : Prop :=
  ∀ h', e' = some h' → h'.leavesStale = true → ∃ h, e = some h ∧ h.phase = h'.phase ∧ h.drainReason = h'.drainReason

theorem Tame.refl (e : Option HostState) : Tame e e := fun h' heq _ => ⟨h', heq, rfl, rfl⟩

theorem leavesStale_congr {h h' : HostState} (hphase : h.phase = h'.phase) (hdrain : h.drainReason = h'.drainReason) :
    h.leavesStale = h'.leavesStale ∧ h.drainsStale = h'.drainsStale := by
  simp only [HostState.leavesStale, HostState.drainsStale, hphase, hdrain, and_self]

theorem Tame.trans {a b c : Option HostState} (hab : Tame a b) (hbc : Tame b c) : Tame a c := by
  intro h' heq hleaves
  obtain ⟨h, hb, hphase, hdrain⟩ := hbc h' heq hleaves
  obtain ⟨h₀, ha, hphase₀, hdrain₀⟩ := hab h hb ((leavesStale_congr hphase hdrain).1.trans hleaves)
  exact ⟨h₀, ha, hphase₀.trans hphase, hdrain₀.trans hdrain⟩

variable {cfg : Config} {now : Int} {p : Pool} {op : Call} {w w' : World} {job : Job}

theorem tame_of {h h' : HostState}
    (hcase : h'.phase = h.phase ∧ h'.drainReason = h.drainReason ∨ h'.leavesStale = false) : Tame (some h) (some h') := by
  rintro _ ⟨⟩ hleaves
  rcases hcase with ⟨hphase, hdrain⟩ | hnot
  · exact ⟨h, rfl, hphase.symm, hdrain.symm⟩
  · rw [hnot] at hleaves
    cases hleaves

theorem leavesStale_of_phase {h : HostState} (hphase : h.phase = .booting ∨ h.phase = .stopped ∨ h.phase = .ready) : h.leavesStale = false := by
  rcases hphase with hphase | hphase | hphase <;> simp [HostState.leavesStale, hphase]

theorem tame_step (hop : op.manages = false) {e e' : Option HostState} (h : EntryStep cfg now p op e e') : Tame e e' := by
  have hnone : ∀ {e : Option HostState}, Tame e none := fun _ heq => by cases heq
  have hnew : ∀ {e : Option HostState} {h : HostState}, h.leavesStale = false → Tame e (some h) := by
    rintro e h hnot _ ⟨⟩ hleaves
    rw [hnot] at hleaves
    cases hleaves
  cases h with
  | @found _ _ host hmem hvalid =>
    obtain ⟨-, hdrain, -, -⟩ := found_spec cfg now host
    exact hnew (by simp [HostState.leavesStale, hdrain])
  | relisted hmem hid =>
    rename_i started listed host h
    obtain ⟨-, hdrain, -, -, hphase⟩ := relisted_spec cfg started now host h
    refine tame_of ?_
    rcases hphase with hphase | ⟨-, hphase | hphase⟩
    · exact Or.inl ⟨hphase, hdrain⟩
    · exact Or.inr (leavesStale_of_phase (Or.inr (Or.inl hphase)))
    · exact Or.inr (leavesStale_of_phase (Or.inl hphase))
  | unlisted => exact hnone
  | probed info =>
    rename_i results h
    obtain ⟨-, -, -, hcase⟩ := probed_spec cfg p now info h
    refine tame_of ?_
    rcases hcase with ⟨hdrain, hphase | hphase⟩ | hdrain
    · exact Or.inl ⟨hphase, hdrain⟩
    · exact Or.inr (leavesStale_of_phase (Or.inr (Or.inr hphase)))
    · refine Or.inr ?_
      show HostState.leavesStale _ = false
      simp only [HostState.leavesStale, HostState.withID, hdrain]
      simp
  | served hsame =>
    obtain ⟨-, -, hphase, hdrain, -⟩ := HostState.settled_eq hsame
    exact tame_of (Or.inl ⟨hphase, hdrain⟩)
  | refused hphase => exact tame_of (Or.inr (by simp [HostState.leavesStale]))
  | drained => cases hop
  | claimed => cases hop
  | discarded => cases hop
  | restored => cases hop
  | forgotten => exact hnone
  | halted => exact tame_of (Or.inr (leavesStale_of_phase (Or.inr (Or.inl rfl))))
  | starting hphase => exact tame_of (Or.inr (by simp [HostState.leavesStale, startingHost]))
  | placeholder seq => exact hnew rfl
  | startFailed failures => exact tame_of (Or.inr (leavesStale_of_phase (Or.inr (Or.inl rfl))))
  | started => exact tame_of (Or.inr (leavesStale_of_phase (Or.inl rfl)))
  | finished => exact hnone
  | adopted hid => exact tame_of (Or.inl ⟨rfl, rfl⟩)
  | created hvalid => exact hnew rfl

/-- What others do to the hosts while the maintenance loop runs. -/
def World.Tames (w w' : World) : Prop := ∀ k, Tame (w.pool.hosts.get k) (w'.pool.hosts.get k)

theorem tames_exec {choice : Choice} {answer : op.Ans} (hop : op.manages = false) (h : World.exec cfg op choice w = some (answer, w')) :
    w.Tames w' := fun k => exec_induction Tame.refl Tame.trans h (fun _ _ => tame_step hop) k

/-! ### The outline -/

def HostState.rooted (h : HostState) : Prop := h.id ≠ "" ∧ (h.host.id = h.id ∨ h.host.id = "")

theorem rooted_step {e e' : Option HostState} (hstep : EntryStep cfg now p op e e') (he : ∀ h, e = some h → h.rooted) :
    ∀ h', e' = some h' → h'.rooted := by
  have hvalid : ∀ {id : String}, validID id = true → id ≠ "" := by
    rintro id hvalid rfl
    simp [validID] at hvalid
  rintro h' rfl
  cases hstep with
  | found hmem hid =>
    rename_i host
    rw [HostState.rooted, found_id, (found_spec cfg now host).1]
    exact ⟨hvalid hid, Or.inl rfl⟩
  | relisted hmem hid =>
    rename_i started listed host h
    refine ⟨(he h rfl).1, Or.inl ?_⟩
    show (relisted cfg started now host h).host.id = h.id
    rw [(relisted_spec cfg started now host h).1, hid]
  | probed info =>
    rename_i results h
    refine ⟨(he h rfl).1, ?_⟩
    show (probed cfg p now info h).host.id = h.id ∨ (probed cfg p now info h).host.id = ""
    rw [(probed_spec cfg p now info h).1]
    exact (he h rfl).2
  | served hsame =>
    rename_i h
    obtain ⟨hid, hhost, -⟩ := HostState.settled_eq hsame
    rw [HostState.rooted, hid, hhost]
    exact he h rfl
  | @refused reason h _ => exact he h rfl
  | @drained h _ _ _ => exact he h rfl
  | @claimed h _ _ => exact he h rfl
  | @discarded h _ => exact he h rfl
  | @restored _ h _ => exact he h rfl
  | @halted h => exact he h rfl
  | @starting h _ => exact he h rfl
  | placeholder seq =>
    refine ⟨fun hempty => ?_, Or.inr rfl⟩
    have hplaceholder := isPlaceholder_placeholder seq
    rw [show placeholder seq = "" from hempty] at hplaceholder
    cases hplaceholder
  | @startFailed _ h _ => exact he h rfl
  | @started h => exact he h rfl
  | @adopted _ _ host h hid => exact ⟨(he h rfl).1, Or.inl hid⟩
  | created hid => exact ⟨hvalid hid, Or.inl rfl⟩

def World.Single (w : World) : Prop :=
  ∀ (a b : String) (h h' : HostState), w.pool.hosts.get a = some h → w.pool.hosts.get b = some h' →
    h.drainsStale = true → h'.drainsStale = true → a = b

structure Rolling (w : World) : Prop where
  rooted : ∀ k h, w.pool.hosts.get k = some h → h.rooted
  single : w.Single

def Restorable (w : World) (id : String) : Prop :=
  ∀ h k h', w.pool.hosts.get id = some h → h.leavesStale = true → w.pool.hosts.get k = some h' → h'.drainsStale = true → k = id

def rollout : CrewOutline Call.Ans Job Outcome Choice World where
  allowed _ _ _ := True
  inv := Rolling
  compat _ k k' := k ≠ .maintain ∨ k' ≠ .maintain
  guard job op w := (op.manages = true → job = .maintain) ∧ ∀ id, op = .restorePhase id .draining → Restorable w id
  rely job w w' := job = .maintain → w.Tames w'
  post _ _ _ := True

/-! ### What the sections of the maintenance loop do -/

/-- A host that is newly drained for its image is the one that `replaceStale` has chosen. -/
theorem drained_by_replaceStale {k : String} {h' : HostState} (hget : (replaceStale cfg now p).hosts.get k = some h') (hdrains : h'.drainsStale = true) :
    (∃ h, p.hosts.get k = some h ∧ h.drainsStale = true) ∨
      ∃ h, p.staleCandidate cfg = some h ∧ h.id = k ∧ p.hosts.rows.any delaysReplacement = false := by
  rcases replaceStale_cases cfg now p with heq | ⟨h, hcandidate, -, hfree, -, heq⟩
  · rw [heq] at hget
    exact Or.inl ⟨h', hget, hdrains⟩
  · rw [heq, get_update] at hget
    split at hget
    · rename_i hk
      exact Or.inr ⟨h, hcandidate, hk.symm, hfree⟩
    · exact Or.inl ⟨h', hget, hdrains⟩

theorem delays_of_drainsStale {h : HostState} (hdrains : h.drainsStale = true) : delaysReplacement h = true := by
  simp only [HostState.drainsStale, Bool.and_eq_true, decide_eq_true_eq] at hdrains
  simp [delaysReplacement, hdrains]

theorem single_replaceStale (hsingle : w.Single) : ({ w with pool := replaceStale cfg now w.pool } : World).Single := by
  -- if one is newly drained, then none was before
  have hnone : w.pool.hosts.rows.any delaysReplacement = false → ∀ {k h}, w.pool.hosts.get k = some h → h.drainsStale = true → False := by
    intro hfree k h hget hdrains
    rw [List.any_eq_true.mpr ⟨h, Table.mem_of_get hget, delays_of_drainsStale hdrains⟩] at hfree
    cases hfree
  intro a b h h' ha hb hdrains hdrains'
  rcases drained_by_replaceStale ha hdrains with ⟨old, hold, hdrains₀⟩ | ⟨c, hc, hid, hfree⟩
  · rcases drained_by_replaceStale hb hdrains' with ⟨old', hold', hdrains₀'⟩ | ⟨c, -, -, hfree⟩
    · exact hsingle a b old old' hold hold' hdrains₀ hdrains₀'
    · exact (hnone hfree hold hdrains₀).elim
  · rcases drained_by_replaceStale hb hdrains' with ⟨old', hold', hdrains₀'⟩ | ⟨c', hc', hid', -⟩
    · exact (hnone hfree hold' hdrains₀').elim
    · rw [hc, Option.some.injEq] at hc'
      rw [← hid, ← hid', hc']

theorem kept_by_returnCandidates {k : String} {h' : HostState} (hget : (returnCandidates cfg now p).2.hosts.get k = some h') :
    ∃ h, p.hosts.get k = some h ∧ h.drainReason = h'.drainReason ∧ (h.phase = h'.phase ∨ h'.phase = .deleting ∨ h'.phase = .stopping) := by
  have hleaving : ∀ (stop : Bool) (h : HostState), (leaving stop h).phase = .deleting ∨ (leaving stop h).phase = .stopping := by
    intro stop h
    cases stop
    · exact Or.inl rfl
    · exact Or.inr rfl
  refine @effect_induction cfg now p .returnCandidates (fun e e' => ∀ h', e' = some h' → ∃ h, e = some h ∧ h.drainReason = h'.drainReason ∧
    (h.phase = h'.phase ∨ h'.phase = .deleting ∨ h'.phase = .stopping)) (fun e h' heq => ⟨h', heq, rfl, Or.inl rfl⟩) ?_ ?_ k h' hget
  · intro a b c hab hbc h' heq
    obtain ⟨h, hb, hdrain, hphase⟩ := hbc h' heq
    obtain ⟨h₀, ha, hdrain₀, hphase₀⟩ := hab h hb
    refine ⟨h₀, ha, hdrain₀.trans hdrain, ?_⟩
    rcases hphase with hphase | hphase
    · rw [← hphase]
      exact hphase₀
    · exact Or.inr hphase
  · rintro e e' hstep h' rfl
    cases hstep with
    | @served _ h _ hsame =>
      obtain ⟨-, -, hphase, hdrain, -⟩ := HostState.settled_eq hsame
      exact ⟨h, rfl, hdrain.symm, Or.inl hphase.symm⟩
    | @claimed h r hreason => exact ⟨h, rfl, rfl, Or.inr (hleaving r.2 h)⟩
    | @discarded h hphase => exact ⟨h, rfl, rfl, Or.inr (hleaving false h)⟩

theorem drained_by_restorePhase {id k : String} {previous : Phase} {h' : HostState} (hget : (restorePhase id previous p).hosts.get k = some h')
    (hleaves : h'.leavesStale = true) : ∃ h, p.hosts.get k = some h ∧ h.leavesStale = true ∧ h.drainReason = h'.drainReason ∧
      (h.phase = h'.phase ∨ k = id ∧ h'.phase = previous ∧ (h.phase = .deleting ∨ h.phase = .stopping)) := by
  unfold restorePhase at hget
  rw [get_update] at hget
  split at hget
  · rename_i hk
    subst hk
    obtain ⟨h, hold, heq⟩ := Option.map_eq_some_iff.mp hget
    split at heq
    · rename_i hphase
      simp only [Bool.or_eq_true, decide_eq_true_eq] at hphase
      rw [← heq] at hleaves ⊢
      simp only [HostState.leavesStale, HostState.withID, Bool.and_eq_true] at hleaves
      have hreason : h.drainReason = some .imageStale := of_decide_eq_true hleaves.2
      refine ⟨h, hold, ?_, rfl, Or.inr ⟨rfl, rfl, hphase⟩⟩
      rcases hphase with hphase | hphase <;> simp [HostState.leavesStale, hphase, hreason]
    · have heq' : h = h' := heq
      rw [← heq'] at hleaves ⊢
      exact ⟨h, hold, hleaves, rfl, Or.inl rfl⟩
  · exact ⟨h', hget, hleaves, rfl, Or.inl rfl⟩

/-! ### The outline is lawful -/

theorem drainsStale_iff {h : HostState} : h.drainsStale = true ↔ h.phase = .draining ∧ h.drainReason = some .imageStale := by
  simp [HostState.drainsStale]

theorem Rolling.tame (h : Rolling w) (htames : w.Tames w') (hrooted : ∀ k h, w'.pool.hosts.get k = some h → h.rooted) : Rolling w' where
  rooted := hrooted
  single := by
    intro a b ha hb hget hget' hdrains hdrains'
    obtain ⟨h₀, hold, hphase, hreason⟩ := htames a ha hget (HostState.leavesStale_of_drainsStale hdrains)
    obtain ⟨h₀', hold', hphase', hreason'⟩ := htames b hb hget' (HostState.leavesStale_of_drainsStale hdrains')
    exact h.single a b h₀ h₀' hold hold' ((leavesStale_congr hphase hreason).2.trans hdrains) ((leavesStale_congr hphase' hreason').2.trans hdrains')

theorem rooted_exec {choice : Choice} {answer : op.Ans} (hrooted : ∀ k h, w.pool.hosts.get k = some h → h.rooted)
    (hexec : World.exec cfg op choice w = some (answer, w')) (k : String) (h : HostState) (hget : w'.pool.hosts.get k = some h) : h.rooted := by
  refine exec_induction (R := fun e e' => (∀ h, e = some h → h.rooted) → ∀ h', e' = some h' → h'.rooted) (fun _ => id)
    (fun hab hbc ha => hbc (hab ha)) hexec (fun _ _ hstep => rooted_step hstep) k (hrooted k) h hget

theorem exec_pool {choice : Choice} {answer : op.Ans} (hop : op.manages = true) (hexec : World.exec cfg op choice w = some (answer, w')) :
    w' = { w with pool := effect cfg w.clock op w.pool } := by
  cases op <;> try cases hop
  all_goals
    simp only [World.exec, World.lock, World.locked, Option.some.injEq, Prod.mk.injEq] at hexec
    rw [← hexec.2]
    rfl

theorem rolling_step {choice : Choice} {answer : op.Ans} (h : Rolling w) (hrestore : ∀ id, op = .restorePhase id .draining → Restorable w id)
    (hexec : World.exec cfg op choice w = some (answer, w')) : Rolling w' := by
  have hrooted : ∀ k h, w'.pool.hosts.get k = some h → h.rooted := rooted_exec h.rooted hexec
  cases hop : op.manages with
  | false => exact h.tame (tames_exec hop hexec) hrooted
  | true =>
    refine ⟨hrooted, ?_⟩
    have heq := exec_pool hop hexec
    subst heq
    cases op with
    | replaceStale => exact single_replaceStale h.single
    | returnCandidates =>
      intro a b ha hb hget hget' hdrains hdrains'
      obtain ⟨hphase, -⟩ := drainsStale_iff.mp hdrains
      obtain ⟨hphase', -⟩ := drainsStale_iff.mp hdrains'
      obtain ⟨h₀, hold, hreason, hcase⟩ := kept_by_returnCandidates hget
      obtain ⟨h₀', hold', hreason', hcase'⟩ := kept_by_returnCandidates hget'
      have hsame : h₀.phase = ha.phase := by simpa [hphase] using hcase
      have hsame' : h₀'.phase = hb.phase := by simpa [hphase'] using hcase'
      exact h.single a b h₀ h₀' hold hold' ((leavesStale_congr hsame hreason).2.trans hdrains) ((leavesStale_congr hsame' hreason').2.trans hdrains')
    | restorePhase id previous =>
      intro a b ha hb hget hget' hdrains hdrains'
      obtain ⟨h₀, hold, hleaves, hreason, hcase⟩ := drained_by_restorePhase hget (HostState.leavesStale_of_drainsStale hdrains)
      obtain ⟨h₀', hold', hleaves', hreason', hcase'⟩ := drained_by_restorePhase hget' (HostState.leavesStale_of_drainsStale hdrains')
      rcases hcase with hsame | ⟨rfl, hprevious, -⟩
      · have hdrains₀ := (leavesStale_congr hsame hreason).2.trans hdrains
        rcases hcase' with hsame' | ⟨rfl, hprevious', -⟩
        · exact h.single a b h₀ h₀' hold hold' hdrains₀ ((leavesStale_congr hsame' hreason').2.trans hdrains')
        · rw [(drainsStale_iff.mp hdrains').1] at hprevious'
          exact hrestore b (by rw [← hprevious']) h₀' a h₀ hold' hleaves' hold hdrains₀
      · rw [(drainsStale_iff.mp hdrains).1] at hprevious
        rcases hcase' with hsame' | ⟨rfl, -, -⟩
        · exact (hrestore a (by rw [← hprevious]) h₀ b h₀' hold hleaves hold' ((leavesStale_congr hsame' hreason').2.trans hdrains')).symm
        · rfl
    | _ => cases hop

theorem safe_tame {α : Type} {p : Prog Call.Ans α} {calls : Call → Bool} (hp : Makes calls p)
    (hcalls : ∀ op, calls op = true → op.manages = false) {A : World → Prop} (hA : ∀ {w w'}, w.Tames w' → A w → A w') (hw : A w) :
    Safe (rollout.logic (crew cfg) .maintain) p (fun _ => A) w := by
  refine hp.safe A hw (fun op w hop _ => ?_) fun op w answer w' w'' hop hw hstep hrely => ?_
  · have hmanages := hcalls op hop
    refine ⟨fun _ => rfl, fun id h => ?_⟩
    rw [h] at hmanages
    cases hmanages
  · obtain ⟨choice, -, hexec⟩ := hstep.1.exec
    exact hA (hrely.1 rfl) (hA (tames_exec (hcalls op hop) hexec) hw)

/-! ### The maintenance loop -/

/-- The host under `id` is drained for its image, or was and may be again once its return has failed. -/
def Restoring (w : World) (cs : List Candidate) (id : String) : Prop :=
  ∃ h, w.pool.hosts.get id = some h ∧ h.drainReason = some .imageStale ∧
    (h.phase = .draining ∨ (h.phase = .deleting ∨ h.phase = .stopping) ∧ ∃ c ∈ cs, c.host.id = id ∧ c.previous = .draining)

/-- While the candidates are returned, there is at most one such host. -/
def Alone (cs : List Candidate) (w : World) : Prop := ∀ a b, Restoring w cs a → Restoring w cs b → a = b

theorem Restoring.tame {cs : List Candidate} {id : String} (htames : w.Tames w') (h : Restoring w' cs id) : Restoring w cs id := by
  obtain ⟨h', hget, hreason, hcase⟩ := h
  have hleaves : h'.leavesStale = true := by
    rcases hcase with hphase | ⟨hphase | hphase, -⟩ <;> simp [HostState.leavesStale, hphase, hreason]
  obtain ⟨h, hold, hphase, hreason'⟩ := htames id h' hget hleaves
  exact ⟨h, hold, hreason'.trans hreason, by rw [hphase]; exact hcase⟩

theorem Alone.tame {cs : List Candidate} (htames : w.Tames w') (h : Alone cs w) : Alone cs w' :=
  fun a b ha hb => h a b (ha.tame htames) (hb.tame htames)

theorem Restoring.of_subset {cs cs' : List Candidate} {id : String} (hsub : ∀ c ∈ cs, c ∈ cs') (h : Restoring w cs id) : Restoring w cs' id := by
  obtain ⟨host, hget, hreason, hcase⟩ := h
  refine ⟨host, hget, hreason, hcase.imp_right ?_⟩
  rintro ⟨hphase, c, hc, hid, hprevious⟩
  exact ⟨hphase, c, hsub c hc, hid, hprevious⟩

theorem Alone.rest {c : Candidate} {rest : List Candidate} (h : Alone (c :: rest) w) : Alone rest w :=
  fun a b ha hb => h a b (ha.of_subset fun _ => List.mem_cons_of_mem _) (hb.of_subset fun _ => List.mem_cons_of_mem _)

theorem Alone.restorable {c : Candidate} {rest : List Candidate} (h : Alone (c :: rest) w) {id : String} (hid : id = c.host.id)
    (hprevious : c.previous = .draining) : Restorable w id := by
  intro host k host' hget hleaves hget' hdrains
  simp only [HostState.leavesStale, Bool.and_eq_true, Bool.or_eq_true, decide_eq_true_eq] at hleaves
  obtain ⟨hphase, hreason⟩ := hleaves
  obtain ⟨hphase', hreason'⟩ := drainsStale_iff.mp hdrains
  refine h k id ⟨host', hget', hreason', Or.inl hphase'⟩ ⟨host, hget, hreason, ?_⟩
  rcases hphase with (hphase | hphase) | hphase
  · exact Or.inl hphase
  · exact Or.inr ⟨Or.inl hphase, c, List.mem_cons_self, hid.symm, hprevious⟩
  · exact Or.inr ⟨Or.inr hphase, c, List.mem_cons_self, hid.symm, hprevious⟩

theorem Alone.restored {c : Candidate} {rest : List Candidate} (h : Alone (c :: rest) w) :
    Alone rest { w with pool := restorePhase c.host.id c.previous w.pool } := by
  have hback : ∀ {k}, Restoring { w with pool := restorePhase c.host.id c.previous w.pool } rest k → Restoring w (c :: rest) k := by
    rintro k ⟨h', hget, hreason, hcase⟩
    have hleaves : h'.leavesStale = true := by
      rcases hcase with hphase | ⟨hphase | hphase, -⟩ <;> simp [HostState.leavesStale, hphase, hreason]
    obtain ⟨h, hold, -, hreason', hphase | ⟨hk, hprevious, hphase⟩⟩ := drained_by_restorePhase hget hleaves
    · refine ⟨h, hold, hreason'.trans hreason, ?_⟩
      rw [hphase]
      refine hcase.imp_right ?_
      rintro ⟨hphase, c', hc', hid, hprevious⟩
      exact ⟨hphase, c', List.mem_cons_of_mem _ hc', hid, hprevious⟩
    · refine ⟨h, hold, hreason'.trans hreason, Or.inr ⟨hphase, ?_⟩⟩
      rcases hcase with hphase' | ⟨-, c', hc', hid, hprevious'⟩
      · exact ⟨c, List.mem_cons_self, hk.symm, by rw [← hprevious, hphase']⟩
      · exact ⟨c', List.mem_cons_of_mem _ hc', hid, hprevious'⟩
  exact fun a b ha hb => h a b (hback ha) (hback hb)

theorem alone_of_candidates (h : Rolling w) :
    Alone (returnCandidates cfg now w.pool).1 { w with pool := (returnCandidates cfg now w.pool).2 } := by
  have hback : ∀ {k}, Restoring { w with pool := (returnCandidates cfg now w.pool).2 } (returnCandidates cfg now w.pool).1 k →
      ∃ h, w.pool.hosts.get k = some h ∧ h.drainsStale = true := by
    rintro k ⟨h', hget, hreason, hcase⟩
    obtain ⟨h₀, hold, hreason₀, hphase₀⟩ := kept_by_returnCandidates hget
    refine ⟨h₀, hold, drainsStale_iff.mpr ⟨?_, hreason₀.trans hreason⟩⟩
    rcases hcase with hphase | ⟨-, c, hc, hid, hprevious⟩
    · simpa [hphase] using hphase₀
    · obtain ⟨h₁, h₂, hclaimed⟩ := candidates_spec hc
      have hroot := h.rooted _ _ hclaimed.old
      have hkey : h₁.id = k := by
        rcases hroot.2 with hname | hempty
        · rw [← hname, hclaimed.host, hid]
        · rw [hclaimed.host, hid] at hempty
          exact absurd ((Table.key_of_get hold).trans hempty) (h.rooted _ _ hold).1
      have hsame := hclaimed.old
      rw [hkey, hold, Option.some.injEq] at hsame
      rw [hsame, hclaimed.previous, hprevious]
  intro a b ha hb
  obtain ⟨h₀, hget, hdrains⟩ := hback ha
  obtain ⟨h₀', hget', hdrains'⟩ := hback hb
  exact h.single a b h₀ h₀' hget hget' hdrains hdrains'

abbrev rolloutLogic (cfg : Config) : Logic Call.Ans World := rollout.logic (crew cfg) .maintain

theorem safe_restore {c : Candidate} {rest : List Candidate} (hw : Alone (c :: rest) w) :
    Safe (rolloutLogic cfg) (ask (.restorePhase c.host.id c.previous)) (fun _ => Alone rest) w := by
  refine safe_perform ⟨fun _ => rfl, fun id hop => ?_⟩ fun answer w' hstep w'' hrely => ?_
  · injection hop with hid hprevious
    exact hw.restorable hid.symm hprevious
  · obtain ⟨choice, -, hexec⟩ := hstep.1.exec
    have heq := @exec_pool cfg (.restorePhase c.host.id c.previous) w w' choice answer rfl hexec
    exact Alone.tame (hrely.1 rfl) (heq ▸ hw.restored)

theorem safe_tameCall {op : Call} (hop : op.manages = false) {cs : List Candidate} (hw : Alone cs w) :
    Safe (rolloutLogic cfg) (ask op) (fun _ => Alone cs) w := by
  refine @safe_tame cfg w _ _ (fun other => decide (other = op)) (makes_ask (decide_eq_true rfl)) (fun other h => ?_) (Alone cs) Alone.tame hw
  rw [of_decide_eq_true h]
  exact hop

theorem safe_returnHost' {c : Candidate} {rest : List Candidate} (hw : Alone (c :: rest) w) :
    Safe (rolloutLogic cfg) (returnHost c) (fun _ => Alone rest) w := by
  have hconfirm : Safe (rolloutLogic cfg) (confirmEmpty c) (fun _ => Alone (c :: rest)) w := by
    unfold confirmEmpty
    split
    · refine (safe_tameCall rfl hw).bind fun answer w hw => ?_
      split <;> exact hw
    · exact hw
  refine hconfirm.bind fun empty w hw => ?_
  cases empty with
  | false => exact safe_restore hw
  | true =>
    rw [if_pos rfl]
    split
    · refine (safe_tameCall rfl hw).bind fun failure w hw => ?_
      cases failure with
      | some err => exact safe_restore hw
      | none => exact safe_tameCall rfl hw.rest
    · refine (safe_tameCall rfl hw).bind fun failure w hw => ?_
      cases failure with
      | some err => exact safe_restore hw
      | none => exact safe_tameCall rfl hw.rest

theorem safe_rollout_maintain : Safe (rolloutLogic cfg) (Job.program cfg .maintain) (fun _ _ => True) w := by
  have htame : ∀ {α : Type} {p : Prog Call.Ans α} {calls : Call → Bool} {w : World}, Makes calls p →
      (∀ op, calls op = true → op.manages = false) → Safe (rolloutLogic cfg) p (fun _ _ => True) w := fun hp hcalls =>
    safe_tame hp hcalls (fun _ _ => trivial) trivial
  have hall : ∀ {cs : List Candidate} {w : World}, Alone cs w → Safe (rolloutLogic cfg) (returnAll cs) (fun _ _ => True) w := by
    intro cs
    induction cs with
    | nil => exact fun _ => trivial
    | cons c rest ih => exact fun hw => (safe_returnHost' hw).bind fun _ w hw => ih hw
  refine Safe.bind (M := fun _ _ => True) ?_ fun _ _ _ => trivial
  refine (htame (makes_followTag cfg) fun op hop => ?_).bind fun _ w _ => (htame (makes_refreshHosts false) fun op hop => ?_).bind fun _ w _ =>
    (htame makes_probe fun op hop => ?_).bind fun _ w _ => (@htame _ _ (fun op => decide (op = .hostsIn .maintain)) _ (makes_ask rfl) fun op hop => ?_).bind fun hosts w _ =>
    (htame (makes_listSlots hosts) fun op hop => ?_).bind fun _ w _ => Safe.bind (M := fun _ _ => True) ?_ fun _ w _ =>
    Safe.bind (M := fun _ _ => True) ?_ fun _ w _ => ?_
  · cases op <;> first | rfl | cases hop
  · cases op <;> first | rfl | cases hop
  · cases op <;> first | rfl | cases hop
  · rw [of_decide_eq_true hop]
    rfl
  · cases op <;> first | rfl | cases hop
  · exact safe_perform ⟨fun _ => rfl, fun id h => by cases h⟩ fun _ _ _ _ _ => trivial
  · unfold returnHosts
    split
    · refine Safe.bind (M := fun candidates w => Alone candidates w) (safe_perform ⟨fun _ => rfl, fun id h => by cases h⟩ ?_)
        fun candidates w hw => hall hw
      intro candidates w' hstep w'' hrely
      obtain ⟨choice, -, hexec⟩ := hstep.1.exec
      have heq := @exec_pool cfg .returnCandidates w w' choice candidates rfl hexec
      simp only [crew, World.exec, World.locked, Option.some.injEq, Prod.mk.injEq] at hexec
      rw [← hexec.1]
      exact Alone.tame (hrely.1 rfl) (heq ▸ alone_of_candidates hstep.1.inv)
    · trivial
  · split
    · exact Safe.bind (M := fun _ _ => True) (safe_perform ⟨(fun h => by cases h), fun id h => by cases h⟩ fun _ _ _ _ _ => trivial)
        fun _ _ _ => trivial
    · trivial

/-! ### All goroutines together -/

theorem unmanaged_of_calls (hjob : job ≠ .maintain) (hop : job.calls op = true) : op.manages = false := by
  cases job with
  | maintain => exact absurd rfl hjob
  | _ => cases op <;> first | rfl | cases hop

theorem safe_rollout_other (hjob : job ≠ .maintain) : Safe (rollout.logic (crew cfg) job) (job.program cfg) (fun _ _ => True) w := by
  refine (makes_program cfg job).safe (fun _ => True) trivial (fun op w hop _ => ?_) fun _ _ _ _ _ _ _ _ _ => trivial
  have hmanages := unmanaged_of_calls hjob hop
  refine ⟨fun h => ?_, fun id h => ?_⟩
  · rw [hmanages] at h
    cases h
  · rw [h] at hmanages
    cases hmanages

theorem safe_rollout (cfg : Config) (job : Job) (w : World) : rollout.ThreadSafe (crew cfg) ((crew cfg).fork job) w := by
  intro w' _ _
  by_cases hjob : job = .maintain
  · subst hjob
    exact safe_rollout_maintain
  · exact safe_rollout_other hjob

theorem World.Tames.refl (w : World) : w.Tames w := fun _ => Tame.refl _

theorem forks_spec {answer : op.Ans} {child : Job} (hchild : child ∈ op.forks answer) :
    (∃ id, child = .start id) ∨ ∃ key image, child = .create key image := by
  cases op with
  | grow =>
    obtain ⟨starts, creates, image⟩ := answer
    rcases List.mem_append.mp hchild with hchild | hchild
    · obtain ⟨id, -, rfl⟩ := List.mem_map.mp hchild
      exact Or.inl ⟨id, rfl⟩
    · obtain ⟨key, -, rfl⟩ := List.mem_map.mp hchild
      exact Or.inr ⟨key, image, rfl⟩
  | _ => cases hchild

theorem lawful_rollout (cfg : Config) : rollout.Lawful (crew cfg) where
  rely_refl _ w _ := World.Tames.refl w
  rely_trans h h' hjob k := (h hjob k).trans (h' hjob k)
  compat_symm h := h.symm
  inv_step h := by
    obtain ⟨choice, -, hexec⟩ := h.exec
    exact rolling_step h.inv h.guard.2 hexec
  compat_step _ h := h
  interfere {key other op w answer w'} h hcompat hother := by
    obtain ⟨choice, -, hexec⟩ := h.exec
    have hkey : key ≠ .maintain := hcompat.resolve_right (not_not.mpr hother)
    exact tames_exec (Bool.eq_false_of_not_eq_true fun hmanages => hkey (h.guard.1 hmanages)) hexec
  forks_pairwise {key op w answer w'} h := by
    refine List.pairwise_iff_getElem.mpr fun i j hi hj _ => Or.inl ?_
    rcases forks_spec (List.getElem_mem hi) with ⟨id, heq⟩ | ⟨key, image, heq⟩ <;> rw [show ((crew cfg).forks op answer)[i] = _ from heq] <;> simp
  forks_compat h hchild _ := by
    refine Or.inr ?_
    rcases forks_spec hchild with ⟨id, rfl⟩ | ⟨key, image, rfl⟩ <;> simp
  forks_safe {key op w answer w' child} h hchild := by
    refine ⟨safe_rollout cfg child w', ?_⟩
    rcases forks_spec hchild with ⟨id, rfl⟩ | ⟨key, image, rfl⟩
    · exact ⟨_, _, rfl⟩
    · exact ⟨_, _, rfl⟩

theorem rollout_step {s s' : System} {label : Label} (h : rollout.CrewSafe (crew cfg) s.threads s.world) (hlabel : label ≠ .restart)
    (hstep : System.step cfg label s = some s') : rollout.CrewSafe (crew cfg) s'.threads s'.world := by
  refine System.crewSafe_step cfg (lawful_rollout cfg) h hlabel (fun _ _ _ _ _ _ => trivial) ?_ ?_ hstep
  · intro w' hw'
    have hpool : w'.pool = s.world.pool := by
      rcases hw' with ⟨change, -, rfl⟩ | ⟨job, -, rfl⟩
      · exact pool_change s.world change
      · exact pool_noting s.world job
    refine ⟨⟨fun k host hget => h.inv.rooted k host (hpool ▸ hget), fun a b host host' ha hb => h.inv.single a b host host' (hpool ▸ ha) (hpool ▸ hb)⟩,
      fun _ _ k => ?_, fun _ _ => id⟩
    rw [hpool]
    exact Tame.refl _
  · intro job _ hmay
    refine ⟨fun t ht => ?_, safe_rollout cfg job _⟩
    by_cases hjob : job = .maintain
    · subst hjob
      exact Or.inl (of_decide_eq_true (List.all_eq_true.mp hmay t ht))
    · exact Or.inr hjob

/-! ### Drains that begin -/

def begun (p p' : Pool) : List String :=
  (p'.hosts.rows.filter fun h' => h'.drainsStale && !(p.hosts.get h'.id).any HostState.leavesStale).map (·.id)

theorem mem_begun {p' : Pool} {id : String} : id ∈ begun p p' ↔
    ∃ h', p'.hosts.get id = some h' ∧ h'.drainsStale = true ∧ (p.hosts.get id).any HostState.leavesStale = false := by
  simp only [begun, List.mem_map, List.mem_filter, Bool.and_eq_true, Bool.not_eq_true']
  constructor
  · rintro ⟨h', ⟨hmem, hdrains, hbefore⟩, rfl⟩
    exact ⟨h', Table.get_of_mem hmem, hdrains, hbefore⟩
  · rintro ⟨h', hget, hdrains, hbefore⟩
    have hid := Table.key_of_get hget
    exact ⟨h', ⟨Table.mem_of_get hget, hdrains, by rw [hid]; exact hbefore⟩, hid⟩

theorem begun_eq_nil {p' : Pool}
    (h : ∀ id h', p'.hosts.get id = some h' → h'.drainsStale = true → ∃ h, p.hosts.get id = some h ∧ h.leavesStale = true) : begun p p' = [] := by
  rw [List.eq_nil_iff_forall_not_mem]
  intro id hid
  obtain ⟨h', hget, hdrains, hbefore⟩ := mem_begun.mp hid
  obtain ⟨host, hold, hleaves⟩ := h id h' hget hdrains
  rw [hold, Option.any_some, hleaves] at hbefore
  cases hbefore

theorem begun_self (p : Pool) : begun p p = [] :=
  begun_eq_nil fun _ h' hget hdrains => ⟨h', hget, HostState.leavesStale_of_drainsStale hdrains⟩

theorem begun_effect (hop : op ≠ .replaceStale) : begun p (effect cfg now op p) = [] := by
  refine begun_eq_nil fun id h' hget hdrains => ?_
  have hleaves := HostState.leavesStale_of_drainsStale hdrains
  cases hmanages : op.manages with
  | false =>
    have htame : Tame (p.hosts.get id) ((effect cfg now op p).hosts.get id) := effect_induction Tame.refl Tame.trans (fun _ _ => tame_step hmanages) id
    obtain ⟨h, hold, hphase, hreason⟩ := htame h' hget hleaves
    exact ⟨h, hold, (leavesStale_congr hphase hreason).1.trans hleaves⟩
  | true =>
    cases op with
    | replaceStale => exact absurd rfl hop
    | returnCandidates =>
      obtain ⟨h, hold, hreason, hcase⟩ := kept_by_returnCandidates hget
      have hsame : h.phase = h'.phase := by simpa [(drainsStale_iff.mp hdrains).1] using hcase
      exact ⟨h, hold, (leavesStale_congr hsame hreason).1.trans hleaves⟩
    | restorePhase id' previous =>
      obtain ⟨h, hold, hbefore, -⟩ := drained_by_restorePhase hget hleaves
      exact ⟨h, hold, hbefore⟩
    | _ => cases hmanages

theorem nodup_begun (p p' : Pool) : (begun p p').Nodup := p'.hosts.nodup.sublist (List.filter_sublist.map _)

theorem begun_replaceStale (cfg : Config) (now : Int) (p : Pool) : begun p (replaceStale cfg now p) = [] ∨ ∃ id, begun p (replaceStale cfg now p) = [id] := by
  have hsub : ∃ id, ∀ k ∈ begun p (replaceStale cfg now p), k = id := by
    rcases replaceStale_cases cfg now p with heq | ⟨h, hcandidate, -, -, -, -⟩
    · rw [heq, begun_self]
      exact ⟨"", fun k hk => absurd hk List.not_mem_nil⟩
    · refine ⟨h.id, fun k hk => ?_⟩
      obtain ⟨h', hget, hdrains, hbefore⟩ := mem_begun.mp hk
      rcases drained_by_replaceStale hget hdrains with ⟨old, hold, hdrains'⟩ | ⟨c, hc, hid, -⟩
      · rw [hold, Option.any_some, HostState.leavesStale_of_drainsStale hdrains'] at hbefore
        cases hbefore
      · rw [hcandidate, Option.some.injEq] at hc
        rw [← hid, hc]
  obtain ⟨id, hid⟩ := hsub
  have hnodup := nodup_begun p (replaceStale cfg now p)
  generalize begun p (replaceStale cfg now p) = l at hid hnodup
  cases l with
  | nil => exact Or.inl rfl
  | cons a rest =>
    cases rest with
    | nil => exact Or.inr ⟨a, rfl⟩
    | cons b rest =>
      have hne := (List.nodup_cons.mp hnodup).1
      rw [hid a List.mem_cons_self, hid b (List.mem_cons_of_mem _ List.mem_cons_self)] at hne
      exact absurd List.mem_cons_self hne

theorem step_pool {s s' : System} {label : Label} (hlabel : label ≠ .restart) (hstep : System.step cfg label s = some s') :
    (s.made label = none ∧ s'.world.pool = s.world.pool) ∨
      ∃ job op choice, s.made label = some (job, op, choice) ∧ s'.world.pool = effect cfg s.world.clock op s.world.pool := by
  cases System.stepped cfg hstep with
  | env change => exact Or.inl ⟨rfl, pool_change s.world change⟩
  | restart => exact absurd rfl hlabel
  | spawn job => exact Or.inl ⟨rfl, pool_noting s.world job⟩
  | advance i choice hadvance =>
    obtain ⟨job, op, next, answer, hthread, hexec, -⟩ := Crew.advance_cases hadvance
    refine Or.inr ⟨job, op, choice, ?_, pool_of_exec hexec⟩
    simp only [System.made, Threads.pending_of_getElem? hthread, Option.map_some]

/-- The drains that have begun, with their times, the last one first. -/
def noteDrains (drains : List (String × Int)) (s : System) (_ : Label) (s' : System) : List (String × Int) :=
  (begun s.world.pool s'.world.pool).map (·, s.world.clock) ++ drains

theorem replaceNotBefore_effect (hop : op ≠ .replaceStale) : (effect cfg now op p).replaceNotBefore = p.replaceNotBefore := by
  cases hsteers : op.steers with
  | false => exact congrArg Course.replaceNotBefore (course_effect cfg now p hsteers)
  | true =>
    cases op with
    | replaceStale => exact absurd rfl hop
    | followed resolved =>
      show (followed cfg now resolved p).replaceNotBefore = _
      unfold followed
      split
      · split
        · rfl
        · split <;> rfl
      · rfl
    | returnCandidates => rfl
    | createFinished key image result =>
      show (createFinished now key image result p).replaceNotBefore = _
      unfold createFinished
      extract_lets q backoff q₁ q₂
      cases result with
      | error err =>
        have hsame : q₁.replaceNotBefore = p.replaceNotBefore := by
          unfold q₁
          split <;> rfl
        dsimp only
        split <;> exact hsame
      | ok host =>
        dsimp only
        split
        · rfl
        · split
          · exact congrArg Course.replaceNotBefore (course_update q₂ _ _)
          · rfl
    | _ => cases hsteers

/-- A step begins no drain, or one at most, when its time has come, and moves that time on. -/
theorem step_begun {s s' : System} {label : Label} (hlabel : label ≠ .restart) (hstep : System.step cfg label s = some s') :
    begun s.world.pool s'.world.pool = [] ∧ s'.world.pool.replaceNotBefore = s.world.pool.replaceNotBefore ∨
      (begun s.world.pool s'.world.pool = [] ∨ ∃ id, begun s.world.pool s'.world.pool = [id]) ∧
        s.world.pool.replaceNotBefore ≤ s.world.clock ∧ s'.world.pool.replaceNotBefore = s.world.clock + replaceInterval := by
  rcases step_pool hlabel hstep with ⟨-, heq⟩ | ⟨job, op, choice, -, heq⟩
  · rw [heq]
    exact Or.inl ⟨begun_self _, rfl⟩
  · rw [heq]
    by_cases hop : op = .replaceStale
    · subst hop
      have hbegun := begun_replaceStale cfg s.world.clock s.world.pool
      rcases replaceStale_cases cfg s.world.clock s.world.pool with hsame | ⟨h, -, hdue, -, -, hdrained⟩
      · refine Or.inl ?_
        rw [show effect cfg s.world.clock .replaceStale s.world.pool = s.world.pool from hsame]
        exact ⟨begun_self _, rfl⟩
      · refine Or.inr ⟨hbegun, Int.not_lt.mp hdue, ?_⟩
        show (replaceStale cfg s.world.clock s.world.pool).replaceNotBefore = _
        rw [hdrained]
    · exact Or.inl ⟨begun_effect hop, replaceNotBefore_effect hop⟩

structure RollingRun (cfg : Config) (r : System × List (String × Int)) : Prop where
  safe : rollout.CrewSafe (crew cfg) r.1.threads r.1.world
  apart : r.2.Pairwise fun later earlier => earlier.2 + replaceInterval ≤ later.2
  past : ∀ d ∈ r.2, d.2 + replaceInterval ≤ r.1.world.pool.replaceNotBefore

theorem RollingRun.step {r r' : System × List (String × Int)} {label : Label} (h : RollingRun cfg r) (hlabel : label ≠ .restart)
    (hstep : recording (System.step cfg) noteDrains label r = some r') : RollingRun cfg r' := by
  obtain ⟨s, drains⟩ := r
  obtain ⟨s', drains'⟩ := r'
  obtain ⟨hstep, hdrains⟩ := recording_cases hstep
  replace hstep : System.step cfg label s = some s' := hstep
  have hsafe := rollout_step h.safe hlabel hstep
  simp only [noteDrains] at hdrains
  rcases step_begun hlabel hstep with ⟨hnone, hsame⟩ | ⟨hone, hdue, hnext⟩
  · rw [hnone, List.map_nil, List.nil_append] at hdrains
    subst hdrains
    exact ⟨hsafe, h.apart, fun d hd => hsame ▸ h.past d hd⟩
  · have hpast : ∀ d ∈ drains, d.2 + replaceInterval ≤ s.world.clock := fun d hd => le_trans (h.past d hd) hdue
    have hpos : 0 < replaceInterval := by decide
    rcases hone with hnone | ⟨id, hone⟩
    · rw [hnone, List.map_nil, List.nil_append] at hdrains
      subst hdrains
      refine ⟨hsafe, h.apart, fun d hd => ?_⟩
      have := hpast d hd
      show d.2 + replaceInterval ≤ s'.world.pool.replaceNotBefore
      omega
    · rw [hone, List.map_singleton, List.singleton_append] at hdrains
      subst hdrains
      refine ⟨hsafe, List.pairwise_cons.mpr ⟨hpast, h.apart⟩, fun d hd => ?_⟩
      show d.2 + replaceInterval ≤ s'.world.pool.replaceNotBefore
      rcases List.mem_cons.mp hd with rfl | hd
      · exact hnext.symm.le
      · have := hpast d hd
        omega

/-- In every run of one pool process, at most one host at a time is drained for a stale image, and two such drains begin at least `replaceInterval` apart. -/
theorem replacements_one_at_a_time {clock : Int} {machines : Table fun m : Machine => m.host.id} {r : System × List (String × Int)}
    (hreach : Reach (recording (System.step cfg) noteDrains) (fun _ label => label ≠ .restart) (System.initial cfg clock machines, []) r) :
    (∀ h ∈ r.1.world.pool.hosts.rows, ∀ h' ∈ r.1.world.pool.hosts.rows, h.drainsStale = true → h'.drainsStale = true → h = h') ∧
      r.2.Pairwise fun later earlier => earlier.2 + replaceInterval ≤ later.2 := by
  have hrun : RollingRun cfg r := by
    refine hreach.invariant ⟨CrewOutline.CrewSafe.empty ⟨?_, ?_⟩, List.Pairwise.nil, ?_⟩ fun h hlabel hstep => h.step hlabel hstep
    · exact fun k h hget => by cases hget
    · exact fun a b h h' hget => by cases hget
    · exact fun d hd => absurd hd List.not_mem_nil
  refine ⟨fun h hmem h' hmem' hdrains hdrains' => ?_, hrun.apart⟩
  have hget := Table.get_of_mem hmem
  have hget' := Table.get_of_mem hmem'
  rw [hrun.safe.inv.single _ _ h h' hget hget' hdrains hdrains', hget', Option.some.injEq] at hget
  exact hget.symm

/-! ### A tag that moves under two hosts -/

namespace Demo

def following (minHosts : Int) : Config :=
  { small with image := "runner:current", minHosts, follow := some { related := fun image => image ≠ "runner:current" } }

def digest : String := "runner@sha256:2"

def other : Host := { id := "8", address := "10.0.0.8", createdAt := noon - 30 * Duration.minute }

def twoMachines : Table fun m : Machine => m.host.id := machines.put { host := other, bornAt := noon - 30 * Duration.minute }

def busySlot : Slot := { index := 0, controllerID := "controller", leaseID := "a", runnerName := "runner-a", state := "started" }

def resolved : List Label := .spawn .maintain :: calls [(1, .image (.ok digest))] ++ [.advance 0 .none]

/-- The rest of that pass: both hosts serve on the earlier image and one of them runs a job. The idle one is drained and deleted. -/
def firstDrain : List Label :=
  calls [(2, .hosts (.ok [host, other])), (2, .order [host, other]), (0, .info (.ok info)), (0, .info (.ok info)), (3, .order [host, other]),
    (0, .slots (.ok [])), (0, .slots (.ok [busySlot])), (3, .slots (.ok [])), (0, .done none true)] ++ [.advance 0 .none, .advance 0 .none]

/-- A pass five minutes later, up to `replaceStale`. -/
def nextPass : List Label :=
  .env (.pass replaceInterval.toNat) :: .spawn .maintain :: calls [(1, .image (.ok digest)), (3, .hosts (.ok [other])), (2, .order []),
    (3, .order [other]), (0, .slots (.ok [busySlot]))] ++ [.advance 0 .none, .advance 0 .none]

end Demo

/-- Two hosts are drained one after another, five minutes apart. -/
theorem replacements_one_at_a_time_two :
    ∃ r, Reach (recording (System.step (Demo.following 0)) noteDrains) (fun _ label => label ≠ .restart)
        (System.initial (Demo.following 0) Demo.noon Demo.twoMachines, []) r ∧
      r.2 = [("8", Demo.noon + replaceInterval), ("7", Demo.noon)] ∧
      (∀ h ∈ r.1.world.pool.hosts.rows, ∀ h' ∈ r.1.world.pool.hosts.rows, h.drainsStale = true → h'.drainsStale = true → h = h') ∧
      r.2.Pairwise fun later earlier => earlier.2 + replaceInterval ≤ later.2 := by
  have hrun : ((replay (recording (System.step (Demo.following 0)) noteDrains) (Demo.resolved ++ Demo.firstDrain ++ Demo.nextPass)
      (System.initial (Demo.following 0) Demo.noon Demo.twoMachines, [])).map (·.2)) = some [("8", Demo.noon + replaceInterval), ("7", Demo.noon)] := by
    decide +kernel
  obtain ⟨r, hreplay, hdrains⟩ := Option.map_eq_some_iff.mp hrun
  have hobeys : Obeys (recording (System.step (Demo.following 0)) noteDrains) (fun _ label => label ≠ .restart)
      (Demo.resolved ++ Demo.firstDrain ++ Demo.nextPass) (System.initial (Demo.following 0) Demo.noon Demo.twoMachines, []) := by
    decide +kernel
  have hreach := Reach.start.of_replay hobeys hreplay
  exact ⟨r, hreach, hdrains, replacements_one_at_a_time hreach⟩

end Pool

end RunnerYard
