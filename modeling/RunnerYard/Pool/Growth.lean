import RunnerYard.Pool.Effects
import RunnerYard.Pool.System

/-!
# The hint of a full pool

A launch that finds no room asks for a host and tells the core how soon to try again. `roomComing` foresees for that what the next growth pass will do, from conditions of its own. Here the two are compared: the hint is positive exactly if a growth pass at that moment leaves some host on its way.
-/

namespace RunnerYard

namespace Pool

/-- A host that is being created, started or booted. -/
def onItsWay (h : HostState) : Bool := h.phase = .creating || h.phase = .starting || h.phase = .booting

/-- The part of a maintenance pass that grows the pool. A source that cannot create hosts has no such part. -/
def growthPass (cfg : Config) (now : Int) (p : Pool) : Pool := if cfg.facts.canCreate then (grow cfg now p).2 else p

def Coming (p : Pool) : Prop := p.hosts.rows.any onItsWay = true

variable {cfg : Config} {now : Int} {p : Pool}

theorem coming_iff : p.Coming ↔ ∃ k h, p.hosts.get k = some h ∧ onItsWay h = true := by
  unfold Coming
  rw [List.any_eq_true]
  constructor
  · rintro ⟨h, hmem, hway⟩
    exact ⟨h.id, h, Table.get_of_mem hmem, hway⟩
  · rintro ⟨k, h, hget, hway⟩
    exact ⟨h, Table.mem_of_get hget, hway⟩

theorem coming_withPlaceholder (now : Int) (p : Pool) : (p.withPlaceholder now).Coming :=
  coming_iff.mpr ⟨_, creatingHost now (p.createSeq + 1), Table.get_put_self p.hosts _, rfl⟩

theorem Coming.growCreates (h : p.Coming) (want : Nat) : (growCreates now want p).2.Coming := by
  induction want generalizing p with
  | zero => exact h
  | succ want ih => exact ih (coming_withPlaceholder now p)

theorem Coming.growStarts (h : p.Coming) (want : Nat) : (growStarts cfg now want p).2.2.Coming := by
  obtain ⟨k, host, hget, hway⟩ := coming_iff.mp h
  rcases get_growStarts cfg now want p k with heq | ⟨host', hget', hphase, hlast⟩
  · exact coming_iff.mpr ⟨k, host, heq.trans hget, hway⟩
  · exact coming_iff.mpr ⟨k, _, hlast, rfl⟩

theorem coming_growStarts {h : HostState} (hstart : p.startable cfg now = some h) (want : Nat) :
    (growStarts cfg now (want + 1) p).2.2.Coming := by
  rw [growStarts, hstart]
  have hget := Table.get_of_mem (startable_spec hstart).1
  have hnext : (p.update h.id (startingHost now)).Coming := by
    refine coming_iff.mpr ⟨h.id, (startingHost now h).withID h.id, ?_, rfl⟩
    rw [get_update, if_pos rfl, hget]
    rfl
  exact hnext.growStarts want

theorem growStarts_of_none (hnone : p.startable cfg now = none) (want : Nat) : growStarts cfg now want p = ([], want, p) := by
  cases want with
  | zero => rfl
  | succ want => rw [growStarts, hnone]

theorem wanted_pos (hdemand : 0 < p.demand) (hnone : ¬p.Coming) : 0 < p.wanted cfg := by
  have hpending : p.hosts.rows.countP pending = 0 := by
    rw [List.countP_eq_zero]
    intro h hmem hpending
    refine hnone (List.any_eq_true.mpr ⟨h, hmem, ?_⟩)
    unfold pending at hpending
    unfold onItsWay
    split at hpending <;> simp_all
  unfold wanted
  simp only [hpending, hdemand, decide_true, Bool.and_true, decide_eq_true_eq]
  split <;> omega

theorem coming_grow_iff (hdemand : 0 < p.demand) (hcreate : cfg.facts.canCreate = true) : (grow cfg now p).2.Coming ↔ p.roomComing cfg now = true := by
  have hroom : p.roomComing cfg now = true ↔ p.Coming ∨ (p.startable cfg now).isSome = true ∨ p.hosts.size < cfg.maxHosts ∧ ¬now < p.createNotBefore := by
    simp only [roomComing, hcreate, Bool.true_and, Bool.or_eq_true, Bool.and_eq_true, decide_eq_true_eq, or_assoc]
    exact Iff.rfl
  rw [hroom]
  unfold grow
  dsimp only
  by_cases hcoming : p.Coming
  · have hafter : ({ p with demand := 0 } : Pool).Coming := hcoming
    exact ⟨fun _ => Or.inl hcoming, fun _ => (hafter.growStarts _).growCreates _⟩
  obtain ⟨want, hwant⟩ := Nat.exists_eq_succ_of_ne_zero (@wanted_pos cfg p hdemand hcoming).ne'
  rw [hwant]
  cases hstart : p.startable cfg now with
  | some h => exact ⟨fun _ => Or.inr (Or.inl rfl), fun _ => (coming_growStarts (p := { p with demand := 0 }) hstart want).growCreates _⟩
  | none =>
    rw [growStarts_of_none (p := { p with demand := 0 }) hstart]
    dsimp only [creations]
    by_cases hwait : now < p.createNotBefore
    · rw [if_pos hwait]
      exact ⟨fun h => absurd h hcoming, fun h => by simp [hcoming, hwait] at h⟩
    rw [if_neg hwait]
    by_cases hfull : p.hosts.size < cfg.maxHosts
    · obtain ⟨n, hn⟩ : ∃ n, min (want + 1) (cfg.maxHosts - p.hosts.size).toNat = n + 1 := ⟨min (want + 1) (cfg.maxHosts - p.hosts.size).toNat - 1, by omega⟩
      rw [hn]
      exact ⟨fun _ => Or.inr (Or.inr ⟨hfull, hwait⟩), fun _ => (coming_withPlaceholder now _).growCreates n⟩
    · have hzero : min (want + 1) (cfg.maxHosts - p.hosts.size).toNat = 0 := by omega
      rw [hzero]
      exact ⟨fun h => absurd h hcoming, fun h => by simp [hcoming, hfull] at h⟩

/-- A full pool gives a positive hint exactly if a growth pass right after it ends with a host on its way. -/
theorem hint_iff_room_coming {raw cfg : Config} (hnew : raw.checked = .ok cfg) (now : Int) (p : Pool) :
    0 < (noteFull cfg now p).1 ↔ (growthPass cfg now (noteFull cfg now p).2).hosts.rows.any onItsWay = true := by
  have hcfg := Config.checked_eq hnew
  have htick : 0 < cfg.tick := by
    rw [hcfg]
    exact orDefault_pos (by decide)
  have hhint : 0 < (noteFull cfg now p).1 ↔ (noteFull cfg now p).2.roomComing cfg now = true := by
    simp only [noteFull]
    split <;> simp_all
  rw [hhint]
  unfold growthPass
  split
  · rename_i hcreate
    exact (coming_grow_iff (Nat.succ_pos p.demand) hcreate).symm
  · rename_i hcreate
    -- a source that cannot create hosts is not used to stop them either
    have hstopper : cfg.stopper = false := by
      rw [hcfg] at hcreate ⊢
      exact Bool.and_eq_false_iff.mpr (Or.inl (Bool.eq_false_of_not_eq_true hcreate))
    simp only [roomComing, startable, hstopper, hcreate]
    simp [onItsWay]

theorem hint_iff_room_coming_small :
    (noteFull Demo.small Demo.noon (new Demo.small)).1 = 10 * Duration.second ∧
    (0 < (noteFull Demo.small Demo.noon (new Demo.small)).1 ↔
      (growthPass Demo.small Demo.noon (noteFull Demo.small Demo.noon (new Demo.small)).2).hosts.rows.any onItsWay = true) :=
  ⟨by decide +kernel, hint_iff_room_coming (show Demo.raw.checked = .ok Demo.small from rfl) Demo.noon (new Demo.small)⟩

end Pool

end RunnerYard
