import Mathlib.Data.String.Basic
import RunnerYard.Pool.Effects
import RunnerYard.Pool.System

/-!
# The hosts a pool keeps

`returnCandidates` gives hosts back that cost more than they save, but two reserves stay. The `min_hosts` oldest ready hosts are kept warm, and of the stopped hosts that may be started again the `keep_stopped` most recently stopped keep their disks. A host that is billed by the hour and stands outside the first reserve is given back before it is charged for an hour in which it has nothing to do.
-/

namespace RunnerYard

namespace Pool

/-- The pool's map has every host under the host's own ID. A placeholder has no host yet. -/
def Keyed (p : Pool) : Prop := ∀ h ∈ p.hosts.rows, h.phase ≠ .creating → h.host.id = h.id

def readyHosts (p : Pool) : List HostState := p.hosts.rows.filter (·.phase = .ready)

def restartable (cfg : Config) (p : Pool) : List HostState :=
  p.hosts.rows.filter fun h => h.phase = .stopped && (p.unusable cfg h).isNone

variable {cfg : Config} {now : Int} {p : Pool}

theorem nodup_rows (p : Pool) : p.hosts.rows.Nodup := p.hosts.nodup.of_map

theorem Keyed.eq_of_id (hkeyed : p.Keyed) {a b : HostState} (ha : a ∈ p.hosts.rows) (hb : b ∈ p.hosts.rows) (hphase : a.phase ≠ .creating)
    (hphase' : b.phase ≠ .creating) (hid : a.host.id = b.host.id) : a = b := by
  rw [hkeyed a ha hphase, hkeyed b hb hphase'] at hid
  have hget := Table.get_of_mem ha
  rw [hid, Table.get_of_mem hb, Option.some.injEq] at hget
  exact hget.symm

/-! ### The warm hosts -/

instance : IsTrans HostState fun a b => olderFirst a b = true where
  trans a b c hab hbc := by
    simp only [olderFirst] at *
    split at hab <;> split at hbc <;> split <;> simp only [decide_eq_true_eq] at * <;> first | omega | skip
    exact le_trans hab hbc

instance : Std.Total fun a b : HostState => olderFirst a b = true where
  total a b := by
    simp only [olderFirst]
    split <;> split <;> simp only [decide_eq_true_eq] at * <;> first | omega | skip
    exact le_total _ _

theorem isFirst_baseHosts (cfg : Config) (p : Pool) :
    IsFirst (fun a b => olderFirst a b = true) cfg.minHosts.toNat p.readyHosts (p.baseHosts cfg) :=
  isFirst_take (List.perm_insertionSort _ _) (List.pairwise_insertionSort _ _) ((nodup_rows p).filter _) _

variable {h : HostState}

theorem returnReason_of_base {r : Reason × Bool} {base : List HostState} (hready : h.phase = .ready)
    (hbase : base.any (fun b => b.host.id = h.id) = true) (hreason : p.returnReason cfg now base h = some r) : r.1 = .unreachable := by
  unfold returnReason at hreason
  extract_lets bootStart idle at hreason
  split at hreason
  · simp_all
  split at hreason
  · rw [← Option.some.inj hreason]
  split at hreason
  · cases hreason
  split at hreason
  · cases hreason
  split at hreason
  · simp_all
  cases hreason

theorem mem_returnCandidates {c : Candidate} (hc : c ∈ (returnCandidates cfg now p).1) :
    (∃ h ∈ p.hosts.rows, p.returnReason cfg now (p.baseHosts cfg) h = some (c.reason, c.stop) ∧ c.host = h.host ∧ c.previous = h.phase) ∨
    ∃ s ∈ (p.returnIdle cfg now).stoppedCandidates cfg now, c.host = s.1.host ∧ s.1 ∈ p.hosts.rows ∧ s.1.phase = .stopped := by
  rcases List.mem_append.mp hc with hc | hc
  · obtain ⟨h, hmem, hmap⟩ := List.mem_filterMap.mp hc
    obtain ⟨r, hreason, rfl⟩ := Option.map_eq_some_iff.mp hmap
    exact Or.inl ⟨h, mem_sorted.mp hmem, hreason, rfl, rfl⟩
  · obtain ⟨s, hs, rfl⟩ := List.mem_map.mp hc
    obtain ⟨hget, hphase, -⟩ := get_returnCandidates_stopped hs
    exact Or.inr ⟨s, hs, rfl, Table.mem_of_get hget, hphase⟩

theorem get_returnCandidates_of_not_mem (hmem : h ∈ p.hosts.rows) (hnone : ∀ c ∈ (returnCandidates cfg now p).1, c.host ≠ h.host) :
    (returnCandidates cfg now p).2.hosts.get h.id = some h := by
  have hget := Table.get_of_mem hmem
  have hreason : p.returnReason cfg now (p.baseHosts cfg) h = none := by
    cases hreason : p.returnReason cfg now (p.baseHosts cfg) h with
    | none => rfl
    | some r =>
      refine absurd rfl (hnone { host := h.host, previous := h.phase, reason := r.1, stop := r.2 } (List.mem_append_left _ ?_))
      exact List.mem_filterMap.mpr ⟨h, mem_sorted.mpr hmem, by rw [hreason]; rfl⟩
  have hstopped : ¬((p.returnIdle cfg now).stoppedCandidates cfg now).any (fun s => s.1.id = h.id) = true := by
    intro hany
    obtain ⟨s, hs, hid⟩ := List.any_eq_true.mp hany
    obtain ⟨hold, -, -⟩ := get_returnCandidates_stopped hs
    rw [of_decide_eq_true hid, hget, Option.some.injEq] at hold
    refine hnone { host := s.1.host, previous := .stopped, reason := s.2, stop := false } (List.mem_append_right _ ?_) (hold ▸ rfl)
    exact List.mem_map_of_mem hs
  unfold returnCandidates
  rw [get_each, get_returnIdle, hget, Option.map_some, Option.map_some, hreason, Option.elim_none]
  exact congrArg (fun h => some (HostState.withID h _)) (if_neg hstopped)

theorem base_only_unreachable (hkeyed : p.Keyed) (hbase : h ∈ p.baseHosts cfg) {c : Candidate}
    (hc : c ∈ (returnCandidates cfg now p).1) (hid : c.host.id = h.host.id) : c.reason = .unreachable := by
  obtain ⟨hmem, hready⟩ := List.mem_filter.mp ((isFirst_baseHosts cfg p).mem h hbase)
  have hready : h.phase = .ready := of_decide_eq_true hready
  have hexists : h.phase ≠ .creating := by rw [hready]; simp
  rcases mem_returnCandidates hc with ⟨h', hmem', hreason, hhost, -⟩ | ⟨s, -, hhost, hmem', hphase⟩
  · have heq := hkeyed.eq_of_id hmem' hmem (phase_of_returnReason hreason).2 hexists (hhost ▸ hid)
    subst heq
    refine returnReason_of_base hready (List.any_eq_true.mpr ⟨h', hbase, ?_⟩) hreason
    simpa using hkeyed h' hmem hexists
  · have heq := hkeyed.eq_of_id hmem' hmem (by rw [hphase]; simp) hexists (hhost ▸ hid)
    rw [heq, hready] at hphase
    cases hphase

/-! ### The stopped hosts -/

instance : IsTrans HostState fun a b => laterStopFirst a b = true where
  trans a b c hab hbc := by
    simp only [laterStopFirst] at *
    split at hab <;> split at hbc <;> split <;> simp only [decide_eq_true_eq] at * <;> first | omega | skip
    exact le_trans hab hbc

instance : Std.Total fun a b : HostState => laterStopFirst a b = true where
  total a b := by
    simp only [laterStopFirst]
    split <;> split <;> simp only [decide_eq_true_eq] at * <;> first | omega | skip
    exact le_total _ _

def stoppedInOrder (p : Pool) : List HostState :=
  (p.hosts.rows.filter (·.phase = .stopped)).insertionSort fun a b => laterStopFirst a b = true

def keptStopped (cfg : Config) (p : Pool) : List HostState :=
  (p.stoppedInOrder.filter fun h => (p.unusable cfg h).isNone).take cfg.keepStopped.toNat

theorem isFirst_keptStopped (cfg : Config) (p : Pool) :
    IsFirst (fun a b => laterStopFirst a b = true) cfg.keepStopped.toNat (p.restartable cfg) (p.keptStopped cfg) := by
  have hperm : (p.stoppedInOrder.filter fun h => (p.unusable cfg h).isNone).Perm (p.restartable cfg) := by
    have hsplit : p.restartable cfg = (p.hosts.rows.filter (·.phase = .stopped)).filter fun h => (p.unusable cfg h).isNone := by
      rw [List.filter_filter]
      apply List.filter_congr
      intro h _
      rw [Bool.and_comm]
    rw [hsplit]
    exact (List.perm_insertionSort _ _).filter _
  exact isFirst_take hperm ((List.pairwise_insertionSort _ _).filter _) ((nodup_rows p).filter _) _

theorem expired_congr {p q : Pool} (h : ∀ host, q.unusable cfg host = p.unusable cfg host) (kept : Int) (rows : List HostState) :
    q.expired cfg now kept rows = p.expired cfg now kept rows := by
  induction rows generalizing kept with
  | nil => rfl
  | cons host rest ih => simp only [expired, h host, ih]

theorem stopped_returnIdle (cfg : Config) (now : Int) (p : Pool) :
    (p.returnIdle cfg now).hosts.rows.filter (·.phase = .stopped) = p.hosts.rows.filter (·.phase = .stopped) := by
  have hrow : ∀ h : HostState, ((p.returnReason cfg now (p.baseHosts cfg) h).elim h fun r => leaving r.2 h).withID h.id = h ∧ h.phase = .stopped ∨
      (((p.returnReason cfg now (p.baseHosts cfg) h).elim h fun r => leaving r.2 h).withID h.id).phase ≠ .stopped ∧ h.phase ≠ .stopped := by
    intro h
    cases hreason : p.returnReason cfg now (p.baseHosts cfg) h with
    | none =>
      by_cases hphase : h.phase = .stopped
      · exact Or.inl ⟨rfl, hphase⟩
      · exact Or.inr ⟨hphase, hphase⟩
    | some r => exact Or.inr ⟨phase_leaving r.2 h, (phase_of_returnReason hreason).1⟩
  show (p.hosts.rows.map _).filter _ = _
  generalize p.hosts.rows = rows
  induction rows with
  | nil => rfl
  | cons h rest ih =>
    rw [List.map_cons]
    rcases hrow h with ⟨hsame, hphase⟩ | ⟨hleft, hphase⟩
    · rw [hsame, List.filter_cons_of_pos (by simpa using hphase), List.filter_cons_of_pos (by simpa using hphase), ih]
    · rw [List.filter_cons_of_neg (by simpa using hleft), List.filter_cons_of_neg (by simpa using hphase), ih]

theorem stoppedCandidates_returnIdle (cfg : Config) (now : Int) (p : Pool) :
    (p.returnIdle cfg now).stoppedCandidates cfg now = p.expired cfg now 0 p.stoppedInOrder := by
  unfold stoppedCandidates
  rw [stopped_returnIdle]
  exact @expired_congr cfg now p (p.returnIdle cfg now) (fun _ => rfl) 0 _

theorem expired_usable {kept : Int} {rows : List HostState} (hnodup : rows.Nodup) {r : HostState × Reason} (hr : r ∈ p.expired cfg now kept rows)
    (husable : p.unusable cfg r.1 = none) :
    r.1 ∉ (rows.filter fun h => (p.unusable cfg h).isNone).take (cfg.keepStopped - kept).toNat ∧
      cfg.deleteStoppedAfter ≤ now - r.1.stoppedSince := by
  induction rows generalizing kept with
  | nil => cases hr
  | cons h rest ih =>
    obtain ⟨hfresh, hrest⟩ := List.nodup_cons.mp hnodup
    rw [expired] at hr
    split at hr
    · rename_i reason hreason
      rw [List.filter_cons_of_neg (by simp [hreason])]
      rcases List.mem_cons.mp hr with rfl | hr
      · rw [hreason] at husable
        cases husable
      · exact ih hrest hr
    · rename_i hnone
      rw [List.filter_cons_of_pos (by simp [hnone])]
      split at hr
      · rename_i hroom
        obtain ⟨hkept, hage⟩ := ih hrest hr
        have hcount : (cfg.keepStopped - kept).toNat = (cfg.keepStopped - (kept + 1)).toNat + 1 := by omega
        rw [hcount, List.take_succ_cons]
        refine ⟨fun hmem => ?_, hage⟩
        rcases List.mem_cons.mp hmem with heq | hmem
        · exact hfresh (heq ▸ mem_expired hr)
        · exact hkept hmem
      · rename_i hfull
        have hcount : (cfg.keepStopped - kept).toNat = 0 := by omega
        rw [hcount, List.take_zero]
        refine ⟨List.not_mem_nil, ?_⟩
        split at hr
        · rename_i hage
          rcases List.mem_cons.mp hr with rfl | hr
          · exact hage
          · exact (ih hrest hr).2
        · exact (ih hrest hr).2

theorem selected_restartable (hkeyed : p.Keyed) (hrestart : h ∈ p.restartable cfg) {c : Candidate}
    (hc : c ∈ (returnCandidates cfg now p).1) (hid : c.host.id = h.host.id) :
    h ∉ p.keptStopped cfg ∧ cfg.deleteStoppedAfter ≤ now - h.stoppedSince := by
  obtain ⟨hmem, hstopped⟩ := List.mem_filter.mp hrestart
  simp only [Bool.and_eq_true, decide_eq_true_eq, Option.isNone_iff_eq_none] at hstopped
  have hexists : h.phase ≠ .creating := by rw [hstopped.1]; simp
  rcases mem_returnCandidates hc with ⟨h', hmem', hreason, hhost, -⟩ | ⟨s, hs, hhost, hmem', hphase⟩
  · have heq := hkeyed.eq_of_id hmem' hmem (phase_of_returnReason hreason).2 hexists (hhost ▸ hid)
    rw [heq] at hreason
    exact absurd hstopped.1 (phase_of_returnReason hreason).1
  · have heq := hkeyed.eq_of_id hmem' hmem (by rw [hphase]; simp) hexists (hhost ▸ hid)
    rw [stoppedCandidates_returnIdle] at hs
    have hnodup : p.stoppedInOrder.Nodup := (List.perm_insertionSort _ _).nodup_iff.mpr ((nodup_rows p).filter _)
    have hspec := expired_usable hnodup hs (heq ▸ hstopped.2)
    rw [heq, Int.sub_zero] at hspec
    exact hspec

/-- Whatever one pass returns, the oldest ready hosts stay unless silent, the most recently stopped restartable ones stay, and others of those go only with age. -/
theorem reserves_are_kept (cfg : Config) (now : Int) (p : Pool) (hkeyed : p.Keyed) :
    (∃ warm, IsFirst (fun a b => olderFirst a b = true) cfg.minHosts.toNat p.readyHosts warm ∧
      ∀ h ∈ warm, (∀ c ∈ (returnCandidates cfg now p).1, c.host.id = h.host.id → c.reason = .unreachable) ∧
        ((∀ c ∈ (returnCandidates cfg now p).1, c.host.id ≠ h.host.id) → (returnCandidates cfg now p).2.hosts.get h.id = some h)) ∧
    (∃ kept, IsFirst (fun a b => laterStopFirst a b = true) cfg.keepStopped.toNat (p.restartable cfg) kept ∧
      ∀ h ∈ kept, ∀ c ∈ (returnCandidates cfg now p).1, c.host.id ≠ h.host.id) ∧
    ∀ h ∈ p.restartable cfg, ∀ c ∈ (returnCandidates cfg now p).1, c.host.id = h.host.id →
      cfg.deleteStoppedAfter ≤ now - h.stoppedSince := by
  refine ⟨⟨p.baseHosts cfg, isFirst_baseHosts cfg p, fun h hbase => ⟨fun c hc => base_only_unreachable hkeyed hbase hc, fun hnone => ?_⟩⟩,
    ⟨p.keptStopped cfg, isFirst_keptStopped cfg p, fun h hkept c hc hid => ?_⟩, fun h hrestart c hc hid => ?_⟩
  · have hmem := (List.mem_filter.mp ((isFirst_baseHosts cfg p).mem h hbase)).1
    exact get_returnCandidates_of_not_mem hmem fun c hc heq => hnone c hc (heq ▸ rfl)
  · exact (selected_restartable hkeyed ((isFirst_keptStopped cfg p).mem h hkept) hc hid).1 hkept
  · exact (selected_restartable hkeyed hrestart hc hid).2

namespace Demo

def stopping : Config := { small with stopper := true, minHosts := 1, keepStopped := 1 }

def idleHost (now : Int) (host : Host) : HostState :=
  { id := host.id, host, phase := .ready, info, firstSeen := noon - Duration.hour, lastContact := now, lastListed := now, everReady := true, emptySince := noon - Duration.hour }

def stoppedAt (since : Int) (id : String) : HostState :=
  { id, host := { id, state := hostStopped }, phase := .stopped, firstSeen := noon - Duration.hour, stoppedSince := since }

/-- Two idle hosts and two stopped ones. -/
def reserves : Pool :=
  { image := "runner@sha256:1"
    hosts := (((Table.empty.put (idleHost noon host)).put (idleHost noon fresh)).put (stoppedAt (noon - Duration.minute) "9")).put
      (stoppedAt (noon - 7 * Duration.hour) "10") }

end Demo

theorem reserves_are_kept_small :
    (returnCandidates Demo.stopping Demo.noon Demo.reserves).1.map (fun c => (c.host.id, c.reason)) = [("8", .idle), ("10", .stoppedExpired)] ∧
    (∃ warm, IsFirst (fun a b => olderFirst a b = true) 1 Demo.reserves.readyHosts warm ∧
      ∀ h ∈ warm, (∀ c ∈ (returnCandidates Demo.stopping Demo.noon Demo.reserves).1, c.host.id = h.host.id → c.reason = .unreachable) ∧
        ((∀ c ∈ (returnCandidates Demo.stopping Demo.noon Demo.reserves).1, c.host.id ≠ h.host.id) →
          (returnCandidates Demo.stopping Demo.noon Demo.reserves).2.hosts.get h.id = some h)) ∧
    (∃ kept, IsFirst (fun a b => laterStopFirst a b = true) 1 (Demo.reserves.restartable Demo.stopping) kept ∧
      ∀ h ∈ kept, ∀ c ∈ (returnCandidates Demo.stopping Demo.noon Demo.reserves).1, c.host.id ≠ h.host.id) ∧
    ∀ h ∈ Demo.reserves.restartable Demo.stopping, ∀ c ∈ (returnCandidates Demo.stopping Demo.noon Demo.reserves).1,
      c.host.id = h.host.id → Demo.stopping.deleteStoppedAfter ≤ Demo.noon - h.stoppedSince := by
  have hkeyed : Demo.reserves.Keyed := by
    show ∀ h ∈ Demo.reserves.hosts.rows, h.phase ≠ .creating → h.host.id = h.id
    decide +kernel
  exact ⟨by decide +kernel, reserves_are_kept Demo.stopping Demo.noon Demo.reserves hkeyed⟩

/-! ### The paid hour -/

structure Spare (cfg : Config) (now : Int) (p : Pool) (h : HostState) : Prop where
  mem : h ∈ p.hosts.rows
  ready : h.phase = .ready
  outside : ∀ b ∈ p.baseHosts cfg, b.host.id ≠ h.id
  slots : h.slots = .empty
  reserved : h.reserved = .empty
  listed : h.lastListed ≠ 0
  recent : now - h.lastListed ≤ 3 * cfg.tick

def Selects (cfg : Config) (now : Int) (p : Pool) (h : HostState) : Prop := ∃ c ∈ (returnCandidates cfg now p).1, c.host = h.host

theorem Config.tick_lt_hourMargin {raw cfg : Config} (hnew : raw.checked = .ok cfg) (hbilling : cfg.facts.billing = .perStartedHour) :
    cfg.tick < cfg.hourMargin := by
  have hcfg := Config.checked_eq hnew
  unfold Config.checked at hnew
  split at hnew
  · cases hnew
  · rename_i hrefusal
    rw [← hcfg] at hrefusal
    unfold Config.refusal at hrefusal
    extract_lets pool at hrefusal
    by_contra hle
    have hslow : (decide (cfg.facts.billing = .perStartedHour) && decide (cfg.hourMargin ≤ cfg.tick)) = true := by
      simp only [hbilling, decide_true, Bool.true_and, decide_eq_true_eq]
      omega
    rw [if_pos hslow] at hrefusal
    repeat' split at hrefusal
    all_goals cases hrefusal

theorem remainingPaid_le {age margin : Int} (hours : Nat) (hearly : ((hours + 1 : Nat) : Int) * Duration.hour - margin ≤ age)
    (hlate : age < ((hours + 1 : Nat) : Int) * Duration.hour) : remainingPaid age ≤ margin := by
  have hpos : 0 < Duration.hour := by decide
  rw [Nat.cast_succ, Int.add_mul, Int.one_mul] at hearly hlate
  unfold remainingPaid
  split
  · have := Int.mul_nonneg (Int.natCast_nonneg hours) hpos.le
    omega
  · by_cases hlast : (hours : Int) * Duration.hour ≤ age
    · have hmod : age % Duration.hour = age - hours * Duration.hour := by
        rw [← Int.sub_mul_emod_self_right age hours, Int.emod_eq_of_lt (by omega) (by omega)]
      omega
    · have := Int.emod_nonneg age hpos.ne'
      omega

theorem spare_selected (hbilling : cfg.facts.billing = .perStartedHour) (hspare : Spare cfg now p h)
    (hpaid : remainingPaid (now - h.host.createdAt) ≤ cfg.hourMargin) : Selects cfg now p h := by
  have hreason : ∃ r, p.returnReason cfg now (p.baseHosts cfg) h = some r := by
    unfold returnReason
    extract_lets bootStart idle
    rw [if_neg (by simp [hspare.ready])]
    split
    · exact ⟨_, rfl⟩
    · have hbase : (p.baseHosts cfg).any (fun b => b.host.id = h.id) = false := by
        simpa using hspare.outside
      have hrecent := hspare.recent
      simp [hspare.ready, HostState.occupied, hspare.slots, hspare.reserved, Table.size, Table.empty, hspare.listed, hbase, hbilling, hrecent]
  obtain ⟨r, hreason⟩ := hreason
  refine ⟨{ host := h.host, previous := h.phase, reason := r.1, stop := r.2 }, List.mem_append_left _ ?_, rfl⟩
  exact List.mem_filterMap.mpr ⟨h, mem_sorted.mpr hspare.mem, by rw [hreason]; rfl⟩

/-- If passes at most one tick apart reach the margin before the end of a paid hour and find the host `id` spare until it is selected, one selects it before the hour ends. -/
theorem spare_host_selected_within_paid_hour {raw cfg : Config} (hnew : raw.checked = .ok cfg) (hbilling : cfg.facts.billing = .perStartedHour)
    (time : Nat → Int) (pool : Nat → Pool) (htick : ∀ i, time (i + 1) ≤ time i + cfg.tick) (id : String) (created ending : Int)
    (hours : Nat) (hending : ending = created + ((hours + 1 : Nat) : Int) * Duration.hour) (hstart : time 0 < ending)
    (hreach : ∃ n, ending - cfg.hourMargin ≤ time n)
    (hspare : ∀ i, ending - cfg.hourMargin ≤ time i → time i < ending →
      (∀ j < i, ending - cfg.hourMargin ≤ time j → ∀ h, (pool j).hosts.get id = some h → ¬Selects cfg (time j) (pool j) h) →
      ∃ h, (pool i).hosts.get id = some h ∧ h.host.createdAt = created ∧ Spare cfg (time i) (pool i) h) :
    ∃ i h, ending - cfg.hourMargin ≤ time i ∧ time i < ending ∧ (pool i).hosts.get id = some h ∧ Selects cfg (time i) (pool i) h := by
  have hmargin := Config.tick_lt_hourMargin hnew hbilling
  have hearlier : ∀ j < Nat.find hreach, ¬ending - cfg.hourMargin ≤ time j := fun j hj => Nat.find_min hreach hj
  have hwindow := Nat.find_spec hreach
  revert hearlier hwindow
  generalize Nat.find hreach = n
  intro hearlier hwindow
  -- the first pass within the margin comes before the hour ends
  have hbefore : time n < ending := by
    cases n with
    | zero => exact hstart
    | succ n =>
      have := hearlier n (Nat.lt_succ_self n)
      have := htick n
      omega
  obtain ⟨h, hget, hcreated, hspare⟩ := hspare n hwindow hbefore fun j hj hlate => absurd hlate (hearlier j hj)
  refine ⟨n, h, hwindow, hbefore, hget, spare_selected hbilling hspare (remainingPaid_le hours ?_ ?_)⟩ <;> omega

namespace Demo

def hourly : Config := { raw with facts := { billing := .perStartedHour, canCreate := true } }

/-- A pass every tick, from three minutes before noon. -/
def passAt (i : Nat) : Int := noon - 3 * Duration.minute + i * (10 * Duration.second)

def spare (i : Nat) : Pool := { image := "runner@sha256:1", hosts := Table.empty.put (idleHost (passAt i) host) }

end Demo

theorem spare_host_selected_within_paid_hour_noon :
    ∃ i h, Demo.noon - 2 * Duration.minute ≤ Demo.passAt i ∧ Demo.passAt i < Demo.noon ∧ (Demo.spare i).hosts.get "7" = some h ∧
      Selects Demo.hourly.withDefaults (Demo.passAt i) (Demo.spare i) h := by
  have hpass : ∀ i, Demo.passAt (i + 1) ≤ Demo.passAt i + 10 * Duration.second := by
    intro i
    simp only [Demo.passAt, Nat.cast_succ, Int.add_mul, Int.one_mul]
    omega
  refine spare_host_selected_within_paid_hour (show Demo.hourly.checked = .ok Demo.hourly.withDefaults from rfl) rfl Demo.passAt Demo.spare hpass "7" (Demo.noon - Duration.hour) Demo.noon 0
    (by decide) (by decide) ⟨6, by decide⟩ fun i hearly _ _ => ?_
  refine ⟨Demo.idleHost (Demo.passAt i) Demo.host, rfl, rfl, ?_⟩
  exact
    { mem := List.mem_cons_self
      ready := rfl
      outside := fun b hb => absurd hb List.not_mem_nil
      slots := rfl
      reserved := rfl
      listed := by
        have hnoon : Demo.noon - 3 * Duration.minute > 0 := by decide
        have hsecond : 0 ≤ (i : Int) * (10 * Duration.second) := Int.mul_nonneg (Int.natCast_nonneg i) (by decide)
        show Demo.passAt i ≠ 0
        simp only [Demo.passAt]
        omega
      recent := by
        show Demo.passAt i - Demo.passAt i ≤ _
        rw [Int.sub_self]
        decide }

end Pool

end RunnerYard
