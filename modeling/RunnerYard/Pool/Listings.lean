import RunnerYard.Pool.Rollout

/-!
# Listings that are late

`refreshHosts` reads the clock, asks the source for its hosts without the lock and applies the answer later, from any goroutine. Meanwhile the pool creates, starts, stops and deletes hosts. What keeps a late answer from undoing such a change differs: a host that was entered since the listing began is not dropped (`firstSeen`), one that was started or stopped since keeps its phase (`changedAt`). Nothing remembers a host that was deleted, so that a listing which still names it brings it back.

The runs here are those of a clock that moves at every step, and of a source that may answer anything.
-/

namespace RunnerYard

open Interaction Prog

namespace Pool

/-- A step, after which the clock has moved. -/
def System.strictStep (cfg : Config) (label : Label) (s : System) : Option System :=
  (System.step cfg label s).map fun s => { s with world := s.world.change (.pass 1) }

inductive Change where
  | created
  | started
  | stopped
  | deleted
  deriving DecidableEq, Repr

def Call.completes : Call → Option (Change × String)
  | .createFinished _ _ (.ok host) => some (.created, host.id)
  | .startFinished id none => some (.started, id)
  | .hostStoppedAt id => some (.stopped, id)
  | .forget id => some (.deleted, id)
  | _ => none

def System.completes (s : System) (label : Label) : Option (Change × String) := (s.made label).bind fun r => r.2.1.completes

structure History where
  changes : List (Change × String × Int) := []
  left : List (String × Int) := []
  deriving DecidableEq

def departed (p p' : Pool) : List String := (p.hosts.rows.filter fun h => (p'.hosts.get h.id).all (·.firstSeen ≠ h.firstSeen)).map (·.id)

/-- A change of a host that the pool does not have is none, except that the host is deleted all the same. -/
def noteChanges (history : History) (s : System) (label : Label) (s' : System) : History :=
  let completed := (s.completes label).toList
  { changes := ((completed.filter fun c => c.1 = .deleted || (s'.world.pool.hosts.get c.2).isSome).map fun c => (c.1, c.2, s.world.clock)) ++
      history.changes
    left := ((departed s.world.pool s'.world.pool ++ (completed.filter (·.1 = .deleted)).map (·.2)).map (·, s.world.clock)) ++ history.left }

abbrev notedStep (cfg : Config) : Label → System × History → Option (System × History) := recording (System.strictStep cfg) noteChanges

/-- The change of a host is not undone from `p` to `p'`. -/
def Change.Upheld (id : String) (p p' : Pool) : Change → Prop
  | created => (p.hosts.get id).isSome = true → (p'.hosts.get id).isSome = true
  | started | stopped => ∀ h h', p.hosts.get id = some h → p'.hosts.get id = some h' → h'.phase = h.phase
  | deleted => p.hosts.get id = none → p'.hosts.get id = none

/-- No host is created that a listing has already found. -/
def System.unforeseen (s : System) (label : Label) : Bool :=
  (s.completes label).all fun c => c.1 ≠ .created || (s.world.pool.hosts.get c.2).isNone

abbrev Unforeseen (r : System × History) (label : Label) : Prop := label ≠ .restart ∧ r.1.unforeseen label = true

variable {cfg : Config} {now : Int} {p : Pool} {op : Call} {job : Job}

/-! ### The dates of an entry -/

/-- An entry is new, or it is the old one, changed now or before. -/
def Dated (now : Int) (e e' : Option HostState) : Prop :=
  ∀ h', e' = some h' → h'.firstSeen = now ∨ ∃ h, e = some h ∧ h.firstSeen = h'.firstSeen ∧ (h'.changedAt = h.changedAt ∨ h'.changedAt = now)

theorem Dated.refl (e : Option HostState) : Dated now e e := fun h' heq => Or.inr ⟨h', heq, rfl, Or.inl rfl⟩

theorem Dated.trans {a b c : Option HostState} (hab : Dated now a b) (hbc : Dated now b c) : Dated now a c := by
  intro h'' heq
  rcases hbc h'' heq with hnew | ⟨h', hb, hseen, hchanged⟩
  · exact Or.inl hnew
  rcases hab h' hb with hnew | ⟨h, ha, hseen', hchanged'⟩
  · exact Or.inl (hseen ▸ hnew)
  refine Or.inr ⟨h, ha, hseen'.trans hseen, ?_⟩
  rcases hchanged with hchanged | hchanged
  · rw [hchanged]
    exact hchanged'
  · exact Or.inr hchanged

theorem dated_step {e e' : Option HostState} (hstep : EntryStep cfg now p op e e') : Dated now e e' := by
  rintro h' rfl
  cases hstep with
  | @found _ _ host _ _ => exact Or.inl (found_spec cfg now host).2.2.1
  | @relisted started _ host h _ _ =>
    obtain ⟨-, -, hseen, hchanged, -⟩ := relisted_spec cfg started now host h
    exact Or.inr ⟨h, rfl, hseen.symm, Or.inl hchanged⟩
  | @probed _ h info =>
    obtain ⟨-, hseen, hchanged, -⟩ := probed_spec cfg p now info h
    exact Or.inr ⟨h, rfl, hseen.symm, Or.inl hchanged⟩
  | @served _ h _ hsame =>
    obtain ⟨-, -, -, -, hseen, hchanged⟩ := HostState.settled_eq hsame
    exact Or.inr ⟨h, rfl, hseen.symm, Or.inl hchanged⟩
  | @refused _ h _ => exact Or.inr ⟨h, rfl, rfl, Or.inl rfl⟩
  | @drained h _ _ _ => exact Or.inr ⟨h, rfl, rfl, Or.inl rfl⟩
  | @claimed h _ _ => exact Or.inr ⟨h, rfl, rfl, Or.inl rfl⟩
  | @discarded h _ => exact Or.inr ⟨h, rfl, rfl, Or.inl rfl⟩
  | @restored _ h _ => exact Or.inr ⟨h, rfl, rfl, Or.inl rfl⟩
  | @halted h => exact Or.inr ⟨h, rfl, rfl, Or.inr rfl⟩
  | @starting h _ => exact Or.inr ⟨h, rfl, rfl, Or.inr rfl⟩
  | placeholder seq => exact Or.inl rfl
  | @startFailed _ h _ => exact Or.inr ⟨h, rfl, rfl, Or.inr rfl⟩
  | @started h => exact Or.inr ⟨h, rfl, rfl, Or.inr rfl⟩
  | @adopted _ _ _ h _ => exact Or.inr ⟨h, rfl, rfl, Or.inl rfl⟩
  | created _ => exact Or.inl rfl

theorem dated_effect (cfg : Config) (now : Int) (op : Call) (p : Pool) (k : String) :
    Dated now (p.hosts.get k) ((effect cfg now op p).hosts.get k) :=
  effect_induction Dated.refl Dated.trans (fun _ _ => dated_step) k

/-! ### What a listing makes of the entries -/

variable {started : Int} {listed : List Host} {k : String}

theorem see_keeps {P : HostState → Prop} (hP : ∀ host h, P h → P ((relisted cfg started now host h).withID h.id)) {h : HostState}
    (hget : p.hosts.get k = some h) (hh : P h) : ∃ h', (listed.foldl (see cfg started now) p).hosts.get k = some h' ∧ P h' := by
  refine List.foldlRecOn (motive := fun q : Pool => ∃ h', q.hosts.get k = some h' ∧ P h') listed _ ⟨h, hget, hh⟩ fun q hq host _ => ?_
  obtain ⟨h', hget', hh'⟩ := hq
  rw [get_see]
  split
  · rename_i hhost
    obtain ⟨-, rfl⟩ := hhost
    rw [hget']
    exact ⟨_, rfl, hP host h' hh'⟩
  · exact ⟨h', hget', hh'⟩

theorem see_other (hlisted : ∀ host ∈ listed, host.id ≠ k) : (listed.foldl (see cfg started now) p).hosts.get k = p.hosts.get k := by
  refine List.foldlRecOn (motive := fun q : Pool => q.hosts.get k = p.hosts.get k) listed _ rfl fun q hq host hmem => ?_
  rw [get_see, if_neg fun hhost => hlisted host hmem hhost.2.symm]
  exact hq

theorem get_applyHosts : (applyHosts cfg started now listed p).hosts.get k =
    ((listed.foldl (see cfg started now) p).hosts.get k).filter (keeps started listed) := Table.get_filter ..

theorem applyHosts_keeps {h : HostState} (hget : p.hosts.get k = some h) (hseen : started < h.firstSeen) :
    ((applyHosts cfg started now listed p).hosts.get k).isSome = true := by
  obtain ⟨h', hget', hseen'⟩ := @see_keeps cfg now p started listed k (fun h => started < h.firstSeen) (fun host h hseen => by
    show started < (relisted cfg started now host h).firstSeen
    rw [(relisted_spec cfg started now host h).2.2.1]
    exact hseen) h hget hseen
  rw [get_applyHosts, hget', Option.filter_some, if_pos (by simp [keeps, hseen'])]
  rfl

theorem applyHosts_phase {h h' : HostState} (hget : p.hosts.get k = some h) (hchanged : started < h.changedAt)
    (hget' : (applyHosts cfg started now listed p).hosts.get k = some h') : h'.phase = h.phase := by
  obtain ⟨h₁, hget₁, -, hphase₁⟩ := @see_keeps cfg now p started listed k (fun h₁ => started < h₁.changedAt ∧ h₁.phase = h.phase) (fun host h₁ hh => by
    obtain ⟨-, -, -, hsame, hphase⟩ := relisted_spec cfg started now host h₁
    refine ⟨?_, ?_⟩
    · show started < (relisted cfg started now host h₁).changedAt
      rw [hsame]
      exact hh.1
    · rcases hphase with hphase | ⟨hbefore, -⟩
      · exact hphase.trans hh.2
      · exact absurd hh.1 (Int.not_lt.mpr hbefore)) h hget ⟨hchanged, rfl⟩
  rw [get_applyHosts, hget₁] at hget'
  rw [← (Option.filter_eq_some_iff.mp hget').1 |> Option.some.inj]
  exact hphase₁

theorem applyHosts_other (hlisted : ∀ host ∈ listed, host.id ≠ k) {h' : HostState}
    (hget' : (applyHosts cfg started now listed p).hosts.get k = some h') : p.hosts.get k = some h' := by
  rw [get_applyHosts, see_other hlisted] at hget'
  exact (Option.filter_eq_some_iff.mp hget').1

/-! ### Whole runs -/

theorem mem_departed {p' : Pool} {h : HostState} (hget : p.hosts.get k = some h) (hleft : ∀ h', p'.hosts.get k = some h' → h'.firstSeen ≠ h.firstSeen) :
    k ∈ departed p p' := by
  have hid : h.id = k := Table.key_of_get hget
  refine List.mem_map.mpr ⟨h, List.mem_filter.mpr ⟨Table.mem_of_get hget, ?_⟩, hid⟩
  rw [hid]
  cases hget' : p'.hosts.get k with
  | none => rfl
  | some h' => simpa using hleft h' hget'

theorem changedAt_of_completes {change : Change} {id : String} {h' : HostState} (hop : op.completes = some (change, id))
    (hchange : change = .started ∨ change = .stopped) (hget : (effect cfg now op p).hosts.get id = some h') : h'.changedAt = now := by
  unfold Call.completes at hop
  split at hop
  · rw [Option.some.injEq, Prod.mk.injEq] at hop
    rw [← hop.1] at hchange
    simp at hchange
  · rw [Option.some.injEq, Prod.mk.injEq] at hop
    obtain ⟨-, rfl⟩ := hop
    change (startFinished now _ none p).hosts.get _ = some h' at hget
    unfold startFinished at hget
    split at hget
    · rename_i hnone
      rw [hnone] at hget
      cases hget
    · rw [show ∀ (q : Pool) (n : Int), ({ q with hostsListedAt := n } : Pool).hosts = q.hosts from fun _ _ => rfl, get_update, if_pos rfl] at hget
      obtain ⟨h, -, rfl⟩ := Option.map_eq_some_iff.mp hget
      rfl
  · rw [Option.some.injEq, Prod.mk.injEq] at hop
    obtain ⟨-, rfl⟩ := hop
    change (hostStoppedAt now _ p).hosts.get _ = some h' at hget
    rw [hostStoppedAt, get_update, if_pos rfl] at hget
    obtain ⟨h, -, rfl⟩ := Option.map_eq_some_iff.mp hget
    rfl
  · rw [Option.some.injEq, Prod.mk.injEq] at hop
    rw [← hop.1] at hchange
    simp at hchange
  · cases hop

/-- Where a change stands: a host created, started or stopped is marked with a time not before, or has left since; one deleted has left. -/
def Change.Marked (p : Pool) (left : List (String × Int)) (id : String) (at_ : Int) : Change → Prop
  | .created => ∀ h, p.hosts.get id = some h → at_ ≤ h.firstSeen
  | .started | .stopped => (∃ h, p.hosts.get id = some h ∧ at_ ≤ h.changedAt) ∨ ∃ t, at_ ≤ t ∧ (id, t) ∈ left
  | .deleted => (id, at_) ∈ left

structure Chronicled (r : System × History) : Prop where
  seen : ∀ k h, r.1.world.pool.hosts.get k = some h → h.firstSeen < r.1.world.clock
  past : ∀ c ∈ r.2.changes, c.2.2 < r.1.world.clock
  marked : ∀ c ∈ r.2.changes, c.1.Marked r.1.world.pool r.2.left c.2.1 c.2.2

theorem clock_le_of_step {label : Label} {s s' : System} (hlabel : label ≠ .restart) (hstep : System.step cfg label s = some s') :
    s.world.clock ≤ s'.world.clock := by
  cases System.stepped cfg hstep with
  | env change =>
    cases change with
    | pass duration => exact Int.le_add_of_nonneg_right (Int.natCast_nonneg duration)
    | _ =>
      simp only [World.change, World.updateMachine]
      split <;> exact Int.le_refl _
  | restart => exact absurd rfl hlabel
  | spawn job => cases job <;> exact Int.le_refl _
  | advance i choice hadvance =>
    obtain ⟨job, op, next, answer, -, hexec, -⟩ := Crew.advance_cases hadvance
    cases exec_executed hexec <;> exact Int.le_refl _

theorem strictStep_cases {label : Label} {s s' : System} (hlabel : label ≠ .restart) (h : System.strictStep cfg label s = some s') :
    s.world.clock < s'.world.clock ∧ ((s.made label = none ∧ s'.world.pool = s.world.pool) ∨
      ∃ job op choice, s.made label = some (job, op, choice) ∧ s'.world.pool = effect cfg s.world.clock op s.world.pool) := by
  obtain ⟨s₁, hstep, rfl⟩ := Option.map_eq_some_iff.mp h
  have hpool := step_pool hlabel hstep
  exact ⟨Int.lt_add_one_of_le (clock_le_of_step hlabel hstep), hpool⟩

theorem Change.Marked.next {change : Change} {id : String} {at_ : Int} {p' : Pool} {left left' : List (String × Int)} (h : change.Marked p left id at_)
    (hdated : Dated now (p.hosts.get id) (p'.hosts.get id)) (hseen : ∀ h, p.hosts.get id = some h → h.firstSeen < now) (hpast : at_ < now)
    (hleft : ∀ d ∈ left, d ∈ left') (hdeparted : id ∈ departed p p' → (id, now) ∈ left') : change.Marked p' left' id at_ := by
  have hhost : ((∃ h, p.hosts.get id = some h ∧ at_ ≤ h.changedAt) ∨ ∃ t, at_ ≤ t ∧ (id, t) ∈ left) →
      (∃ h, p'.hosts.get id = some h ∧ at_ ≤ h.changedAt) ∨ ∃ t, at_ ≤ t ∧ (id, t) ∈ left' := by
    rintro (⟨h, hget, hchanged⟩ | ⟨t, ht, hmem⟩)
    · by_cases hkept : ∃ h', p'.hosts.get id = some h' ∧ h'.firstSeen = h.firstSeen
      · obtain ⟨h', hget', hsame⟩ := hkept
        refine Or.inl ⟨h', hget', ?_⟩
        rcases hdated h' hget' with hnew | ⟨old, hold, -, hcase⟩
        · have hbefore := hseen h hget
          omega
        · rw [hget, Option.some.injEq] at hold
          subst hold
          rcases hcase with hcase | hcase <;> omega
      · refine Or.inr ⟨now, hpast.le, hdeparted (mem_departed hget fun h' hget' hsame => hkept ⟨h', hget', hsame⟩)⟩
    · exact Or.inr ⟨t, ht, hleft _ hmem⟩
  cases change with
  | created =>
    intro h' hget'
    rcases hdated h' hget' with hnew | ⟨old, hold, hsame, -⟩
    · exact hnew ▸ hpast.le
    · exact hsame ▸ h old hold
  | started => exact hhost h
  | stopped => exact hhost h
  | deleted => exact hleft _ h

theorem Chronicled.step {r r' : System × History} {label : Label} (h : Chronicled r) (hlabel : label ≠ .restart) (hunforeseen : r.1.unforeseen label = true)
    (hstep : notedStep cfg label r = some r') : Chronicled r' := by
  obtain ⟨s, history⟩ := r
  obtain ⟨s', history'⟩ := r'
  obtain ⟨hstep, hhistory⟩ := recording_cases hstep
  replace hhistory : history' = noteChanges history s label s' := hhistory
  replace hunforeseen : s.unforeseen label = true := hunforeseen
  obtain ⟨hclock, hpool⟩ : s.world.clock < s'.world.clock ∧ _ := strictStep_cases hlabel hstep
  have hdated : ∀ k, Dated s.world.clock (s.world.pool.hosts.get k) (s'.world.pool.hosts.get k) := by
    intro k
    rcases hpool with ⟨-, hsame⟩ | ⟨job, op, choice, -, heffect⟩
    · rw [hsame]
      exact Dated.refl _
    · rw [heffect]
      exact dated_effect cfg _ op _ k
  refine ⟨fun k host hget => ?_, fun c hc => ?_, fun c hc => ?_⟩
  · rcases hdated k host hget with hnew | ⟨old, hold, hsame, -⟩
    · exact hnew ▸ hclock
    · rw [← hsame]
      exact lt_trans (h.seen k old hold) hclock
  · rw [hhistory] at hc
    rcases List.mem_append.mp hc with hc | hc
    · obtain ⟨c', -, rfl⟩ := List.mem_map.mp hc
      exact hclock
    · exact lt_trans (h.past c hc) hclock
  · rw [hhistory] at hc ⊢
    rcases List.mem_append.mp hc with hc | hc
    · -- a change that this step completes
      obtain ⟨⟨change, id⟩, hc', rfl⟩ := List.mem_map.mp hc
      obtain ⟨hcompletes, hpresent⟩ := List.mem_filter.mp hc'
      rw [Option.mem_toList] at hcompletes
      obtain ⟨⟨job, op, choice⟩, hmade, hop⟩ := Option.bind_eq_some_iff.mp hcompletes
      have hhost : change = .started ∨ change = .stopped →
          ∃ host, s'.world.pool.hosts.get id = some host ∧ s.world.clock ≤ host.changedAt := by
        intro hchange
        have hsome : (s'.world.pool.hosts.get id).isSome = true := by
          rcases hchange with rfl | rfl <;> simpa using hpresent
        obtain ⟨host, hget⟩ := Option.isSome_iff_exists.mp hsome
        refine ⟨host, hget, ?_⟩
        rcases hpool with ⟨hnone, -⟩ | ⟨job', op', choice', hmade', heffect⟩
        · rw [hmade] at hnone
          cases hnone
        · rw [hmade, Option.some.injEq, Prod.mk.injEq, Prod.mk.injEq] at hmade'
          obtain ⟨-, rfl, -⟩ := hmade'
          rw [heffect] at hget
          exact (changedAt_of_completes hop hchange hget).ge
      cases change with
      | created =>
        have hnew : s.world.pool.hosts.get id = none := by
          rw [System.unforeseen, hcompletes] at hunforeseen
          simpa using hunforeseen
        intro host hget
        rcases hdated id host hget with hseen | ⟨old, hold, -⟩
        · exact hseen.ge
        · rw [show s.world.pool.hosts.get id = none from hnew] at hold
          cases hold
      | started => exact Or.inl (hhost (Or.inl rfl))
      | stopped => exact Or.inl (hhost (Or.inr rfl))
      | deleted =>
        refine List.mem_append_left _ (List.mem_map.mpr ⟨id, List.mem_append_right _ (List.mem_map.mpr ⟨(.deleted, id), ?_, rfl⟩), rfl⟩)
        exact List.mem_filter.mpr ⟨Option.mem_toList.mpr hcompletes, decide_eq_true rfl⟩
    · refine (h.marked c hc).next (hdated _) (h.seen _) (h.past c hc) (fun d hd => List.mem_append_right _ hd) fun hdeparted => ?_
      exact List.mem_append_left _ (List.mem_map.mpr ⟨_, List.mem_append_left _ hdeparted, rfl⟩)

/-- The listing names a host that has left the pool since it began: it was deleted, or another listing dropped it. -/
def History.Recalls (history : History) (started : Int) (listed : List Host) : Prop :=
  ∃ host ∈ listed, ∃ t, (host.id, t) ∈ history.left ∧ started < t

/-- In every run of one pool process under a clock that moves, in which no listing finds a host before its creation is complete, a listing undoes no later change of the pool, unless it names a host that has left since. -/
theorem late_listing_undoes_nothing {clock : Int} {machines : Table fun m : Machine => m.host.id} {r r' : System × History} {label : Label}
    (hreach : Reach (notedStep cfg) Unforeseen (System.initial cfg clock machines, {}) r) {choice : Choice} (hmade : r.1.made label = some (job, .applyHosts started listed, choice)) (hrecalls : ¬r.2.Recalls started listed)
    (hstep : notedStep cfg label r = some r') :
    ∀ change id at_, (change, id, at_) ∈ r.2.changes → started < at_ → change.Upheld id r.1.world.pool r'.1.world.pool := by
  have hchronicled : Chronicled r := by
    refine hreach.invariant ⟨fun k h hget => ?_, fun c hc => absurd hc List.not_mem_nil, fun c hc => absurd hc List.not_mem_nil⟩
      fun h hok hstep => h.step hok.1 hok.2 hstep
    cases hget
  obtain ⟨s, history⟩ := r
  obtain ⟨s', history'⟩ := r'
  obtain ⟨hstep, -⟩ := recording_cases hstep
  replace hmade : s.made label = some (job, .applyHosts started listed, choice) := hmade
  have hlabel : label ≠ .restart := by
    rintro rfl
    cases hmade
  have hpool : s'.world.pool = applyHosts cfg started s.world.clock listed s.world.pool := by
    rcases (strictStep_cases hlabel hstep).2 with ⟨hnone, -⟩ | ⟨job', op', choice', hmade', heffect⟩
    · rw [hmade] at hnone
      cases hnone
    · rw [hmade, Option.some.injEq, Prod.mk.injEq, Prod.mk.injEq] at hmade'
      obtain ⟨-, rfl, -⟩ := hmade'
      exact heffect
  have hunnamed : ∀ id t, (id, t) ∈ history.left → started < t → ∀ host ∈ listed, host.id ≠ id := by
    rintro id t hleft hlt host hmem rfl
    exact hrecalls ⟨host, hmem, t, hleft, hlt⟩
  intro change id at_ hchange hlt
  have hmarked := hchronicled.marked _ hchange
  have hphase : ((∃ h, s.world.pool.hosts.get id = some h ∧ at_ ≤ h.changedAt) ∨ ∃ t, at_ ≤ t ∧ (id, t) ∈ history.left) →
      ∀ h h', s.world.pool.hosts.get id = some h → s'.world.pool.hosts.get id = some h' → h'.phase = h.phase := by
    rintro hcase h h' hget hget'
    rw [hpool] at hget'
    rcases hcase with ⟨h₀, hget₀, hchanged⟩ | ⟨t, ht, hleft⟩
    · rw [hget, Option.some.injEq] at hget₀
      subst hget₀
      exact applyHosts_phase hget (lt_of_lt_of_le hlt hchanged) hget'
    · have hsame := applyHosts_other (hunnamed id t hleft (lt_of_lt_of_le hlt ht)) hget'
      rw [hget, Option.some.injEq] at hsame
      rw [hsame]
  cases change with
  | created =>
    intro hhost
    obtain ⟨h, hget⟩ := Option.isSome_iff_exists.mp hhost
    show (s'.world.pool.hosts.get id).isSome = true
    rw [hpool]
    exact applyHosts_keeps hget (lt_of_lt_of_le hlt (hmarked h hget))
  | started => exact hphase hmarked
  | stopped => exact hphase hmarked
  | deleted =>
    intro hnone
    show s'.world.pool.hosts.get id = none
    rw [hpool]
    cases hget' : (applyHosts cfg started s.world.clock listed s.world.pool).hosts.get id with
    | none => rfl
    | some h' =>
      have hsame := applyHosts_other (hunnamed id at_ hmarked hlt) hget'
      rw [show s.world.pool.hosts.get id = none from hnone] at hsame
      cases hsame

/-! ### Two late listings -/

namespace Demo

def keeping : Config := { small with minHosts := 1 }

/-- A pool that keeps one host finds none and creates one. An inventory lists the hosts before the new one exists. -/
def lateCreation : List Label :=
  .spawn .maintain :: calls [(2, .hosts (.ok [])), (2, .order []), (3, .order [])] ++ List.replicate 4 (.advance 0 .none) ++
    [.env (.pass Duration.minute.toNat), .spawn .inventory, .advance 1 .none, .advance 1 .none, .advance 1 (.hosts (.ok [])),
      .advance 0 (.created (.ok fresh) none), .advance 0 .none]

/-- A pool finds an empty host that serves. -/
def idlePass : List Label :=
  .spawn .maintain :: calls [(2, .hosts (.ok [host])), (2, .order [host]), (0, .info (.ok info)), (3, .order [host]), (0, .slots (.ok []))] ++
    List.replicate 4 (.advance 0 .none)

/-- Three minutes later an inventory lists the host, and before it goes on the next pass deletes it. -/
def lateDeletion : List Label :=
  idlePass ++ [.env (.pass (3 * Duration.minute).toNat), .spawn .inventory, .advance 0 .none, .advance 0 .none, .advance 0 (.hosts (.ok [host])),
    .spawn .maintain, .advance 1 .none, .advance 1 .none, .advance 1 (.hosts (.ok [host])), .advance 1 .none, .advance 1 .none, .advance 1 (.order []),
    .advance 1 .none, .advance 1 .none, .advance 1 .none, .advance 1 (.order [host]), .advance 1 (.slots (.ok [])), .advance 1 .none, .advance 1 .none,
    .advance 1 .none, .advance 1 (.slots (.ok [])), .advance 1 (.done none true), .advance 1 .none]

end Demo

theorem late_listing_undoes_nothing_created : ∃ r r', Reach (notedStep Demo.keeping) Unforeseen (System.initial Demo.keeping Demo.noon .empty, {}) r ∧
    notedStep Demo.keeping (.advance 0 .none) r = some r' ∧ (r'.1.world.pool.hosts.get "8").isSome = true := by
  have hrun : ((replay (notedStep Demo.keeping) Demo.lateCreation (System.initial Demo.keeping Demo.noon .empty, {})).bind fun r =>
      (notedStep Demo.keeping (.advance 0 .none) r).map fun _ =>
        (decide (r.1.threads.pending 0 = some (.inventory, .applyHosts (Demo.noon + 60000000018) [])),
          decide (r.2.changes = [(.created, "8", Demo.noon + 60000000021)]), (r.1.world.pool.hosts.get "8").isSome)) = some (true, true, true) := by
    decide +kernel
  have hobeys : Obeys (notedStep Demo.keeping) Unforeseen Demo.lateCreation (System.initial Demo.keeping Demo.noon .empty, {}) := by decide +kernel
  obtain ⟨r, hreplay, hlast⟩ := Option.bind_eq_some_iff.mp hrun
  obtain ⟨r', hstep, heq⟩ := Option.map_eq_some_iff.mp hlast
  rw [Prod.mk.injEq, Prod.mk.injEq, decide_eq_true_eq, decide_eq_true_eq] at heq
  obtain ⟨hpending, hchanges, hhost⟩ := heq
  have hmade : r.1.made (.advance 0 .none) = some (.inventory, .applyHosts (Demo.noon + 60000000018) [], .none) := by
    rw [System.made, hpending]
    rfl
  have hreach := Reach.start.of_replay hobeys hreplay
  have hrecalls : ¬r.2.Recalls (Demo.noon + 60000000018) [] := by
    rintro ⟨host, hmem, -⟩
    cases hmem
  refine ⟨r, r', hreach, hstep, late_listing_undoes_nothing hreach hmade hrecalls hstep .created "8" (Demo.noon + 60000000021) ?_ (by decide) hhost⟩
  rw [hchanges]
  exact List.mem_cons_self

/-- The host has been deleted since the listing began, and the listing brings it back. -/
theorem late_listing_revives_host : ∃ r r', Reach (notedStep Demo.small) Unforeseen (System.initial Demo.small Demo.noon Demo.machines, {}) r ∧
    r.1.threads.pending 0 = some (.inventory, .applyHosts (Demo.noon + 180000000020) [Demo.host]) ∧
    r.2.changes = [(.deleted, "7", Demo.noon + 180000000039)] ∧ r.1.world.pool.hosts.get "7" = none ∧
    notedStep Demo.small (.advance 0 .none) r = some r' ∧ (r'.1.world.pool.hosts.get "7").isSome = true := by
  have hrun : ((replay (notedStep Demo.small) Demo.lateDeletion (System.initial Demo.small Demo.noon Demo.machines, {})).bind fun r =>
      (notedStep Demo.small (.advance 0 .none) r).map fun r' =>
        (decide (r.1.threads.pending 0 = some (.inventory, .applyHosts (Demo.noon + 180000000020) [Demo.host])),
          decide (r.2.changes = [(.deleted, "7", Demo.noon + 180000000039)]), decide (r.1.world.pool.hosts.get "7" = none),
          (r'.1.world.pool.hosts.get "7").isSome)) = some (true, true, true, true) := by
    decide +kernel
  have hobeys : Obeys (notedStep Demo.small) Unforeseen Demo.lateDeletion (System.initial Demo.small Demo.noon Demo.machines, {}) := by decide +kernel
  obtain ⟨r, hreplay, hlast⟩ := Option.bind_eq_some_iff.mp hrun
  obtain ⟨r', hstep, heq⟩ := Option.map_eq_some_iff.mp hlast
  rw [Prod.mk.injEq, Prod.mk.injEq, Prod.mk.injEq, decide_eq_true_eq, decide_eq_true_eq, decide_eq_true_eq] at heq
  obtain ⟨hpending, hchanges, hnone, hback⟩ := heq
  exact ⟨r, r', Reach.start.of_replay hobeys hreplay, hpending, hchanges, hnone, hstep, hback⟩

end Pool

end RunnerYard
