import RunnerYard.Budget.Validate

/-!
# Leases the ledger covers

A lease is covered while its last entry reserves a full lifetime and is active, or ended at the very end of its reserved time. Entries that the window has passed are looked up in an archive, newest first, which the ledger itself does not have.

A call for one lease does not touch the coverage of another: it prunes, which keeps every lease covered, and edits entries of its own lease.
-/

namespace RunnerYard

open UsageBudget

/-- The ledger keeps one entry per lease, and an active one reserves a full lifetime. -/
structure UsageBudget.Proper (b : UsageBudget) : Prop where
  leases : (b.entries.map (·.leaseID)).Nodup
  full : ∀ entry ∈ b.entries, entry.active = true → Duration.seconds b.reservation ≤ entry.seconds

def lastEntry (archive : List UsageEntry) (b : UsageBudget) (leaseID : String) : Option UsageEntry :=
  (b.entries.find? fun entry => decide (entry.leaseID = leaseID)) <|> archive.find? fun entry => decide (entry.leaseID = leaseID)

/-- The entry reserves a full lifetime, and either runs still or ended when that time was over. -/
def UsageEntry.Holds (reservation : Int) (entry : UsageEntry) : Prop :=
  Duration.seconds reservation ≤ entry.seconds ∧ (entry.active = true ∨ entry.chargedAt = entry.endsAt)

def Covered (archive : List UsageEntry) (b : UsageBudget) (leaseID : String) : Prop :=
  ∃ entry, lastEntry archive b leaseID = some entry ∧ entry.Holds b.reservation

/-- What one call does to coverage, even if its write fails. -/
structure Keeps {α : Type} (b : UsageBudget) (u : LedgerUpdate α) (kept : String → Prop) : Prop where
  proper : b.Proper → u.budget.Proper
  reservation : u.budget.reservation = b.reservation
  covered : ∀ archive leaseID, kept leaseID → b.Proper → Covered archive b leaseID → Covered (u.dropped ++ archive) u.budget leaseID

section Entries

variable {reservation now : Int} {entry : UsageEntry}

@[simp] theorem expire_leaseID (now : Int) (entry : UsageEntry) : (entry.expire now).leaseID = entry.leaseID := by
  unfold UsageEntry.expire
  split <;> rfl

theorem map_expire_leaseID (now : Int) (l : List UsageEntry) :
    (l.map (·.expire now)).map (·.leaseID) = l.map (·.leaseID) := by
  simp [Function.comp_def]

@[simp] theorem expire_seconds (now : Int) (entry : UsageEntry) : (entry.expire now).seconds = entry.seconds := by
  unfold UsageEntry.expire
  split <;> rfl

theorem active_of_expire_active (h : (entry.expire now).active = true) : entry.active = true := by
  unfold UsageEntry.expire at h
  split at h
  · simp at h
  · exact h

theorem UsageEntry.Holds.expire (h : entry.Holds reservation) (now : Int) : (entry.expire now).Holds reservation := by
  unfold UsageEntry.expire
  split
  · exact ⟨h.1, Or.inr rfl⟩
  · exact h

end Entries

section Ledgers

variable {b : UsageBudget} {archive : List UsageEntry} {leaseID : String}

theorem lastEntry_of_mem (hb : b.Proper) {entry : UsageEntry} (hmem : entry ∈ b.entries) (hlease : entry.leaseID = leaseID) :
    lastEntry archive b leaseID = some entry := by
  unfold lastEntry
  rw [(find?_key_eq_some_iff hb.leases).mpr ⟨hmem, hlease⟩]
  rfl

theorem lastEntry_of_not_mem (hnone : ∀ entry ∈ b.entries, entry.leaseID ≠ leaseID) :
    lastEntry archive b leaseID = archive.find? fun entry => decide (entry.leaseID = leaseID) := by
  unfold lastEntry
  rw [List.find?_eq_none.mpr fun entry hentry => by simpa using hnone entry hentry]
  rfl

theorem Covered.congr {b' : UsageBudget} (h : Covered archive b leaseID) (hb : b.Proper) (hb' : b'.Proper)
    (hreservation : b'.reservation = b.reservation)
    (hsame : ∀ entry : UsageEntry, entry.leaseID = leaseID → (entry ∈ b'.entries ↔ entry ∈ b.entries)) : Covered archive b' leaseID := by
  obtain ⟨entry, hlast, hholds⟩ := h
  rw [Covered, hreservation]
  refine ⟨entry, ?_, hholds⟩
  by_cases hmem : ∃ other ∈ b.entries, other.leaseID = leaseID
  · obtain ⟨other, hother, hlease⟩ := hmem
    rw [lastEntry_of_mem hb hother hlease] at hlast
    rw [lastEntry_of_mem hb' ((hsame other hlease).mpr hother) hlease, hlast]
  · push Not at hmem
    rw [lastEntry_of_not_mem hmem] at hlast
    rwa [lastEntry_of_not_mem fun other hother hlease => hmem other ((hsame other hlease).mp hother) hlease]

theorem UsageBudget.Proper.prune (hb : b.Proper) (now : Int) : (b.prune now).Proper := by
  constructor
  · refine List.Nodup.sublist (List.filter_sublist.map _) ?_
    rw [map_expire_leaseID]
    exact hb.leases
  · intro entry hentry hactive
    obtain ⟨before, hbefore, rfl⟩ := mem_prune hentry
    rw [expire_seconds]
    exact hb.full before hbefore (active_of_expire_active hactive)

theorem Covered.prune (h : Covered archive b leaseID) (hb : b.Proper) (now : Int) :
    Covered (b.pruned now ++ archive) (b.prune now) leaseID := by
  obtain ⟨entry, hlast, hholds⟩ := h
  have hexpired : ((b.entries.map (·.expire now)).map (·.leaseID)).Nodup := by
    rw [map_expire_leaseID]
    exact hb.leases
  by_cases hmem : ∃ other ∈ b.entries, other.leaseID = leaseID
  · obtain ⟨other, hother, hlease⟩ := hmem
    rw [lastEntry_of_mem hb hother hlease, Option.some.injEq] at hlast
    subst hlast
    refine ⟨other.expire now, ?_, hholds.expire now⟩
    have hmap : other.expire now ∈ b.entries.map (·.expire now) := List.mem_map_of_mem hother
    by_cases hstale : (other.expire now).stale (now - b.window)
    · -- The entry is dropped: no other entry of the lease remains, and the archive holds it.
      rw [lastEntry_of_not_mem, List.find?_append]
      · have hdropped : ((b.pruned now).map (·.leaseID)).Nodup := hexpired.sublist (List.filter_sublist.map _)
        rw [(find?_key_eq_some_iff hdropped).mpr ⟨List.mem_filter.mpr ⟨hmap, hstale⟩, by rw [expire_leaseID, hlease]⟩]
        rfl
      · intro kept hkept hsame
        obtain ⟨hkept, hfresh⟩ := List.mem_filter.mp hkept
        have heq : kept = other.expire now := List.inj_on_of_nodup_map hexpired hkept hmap (by rw [hsame, expire_leaseID, hlease])
        simp [heq, hstale] at hfresh
    · exact lastEntry_of_mem (hb.prune now) (List.mem_filter.mpr ⟨hmap, by simpa using hstale⟩) (by rw [expire_leaseID, hlease])
  · push Not at hmem
    have hnone : ∀ other ∈ b.entries.map (·.expire now), other.leaseID ≠ leaseID := by
      intro other hother
      obtain ⟨before, hbefore, rfl⟩ := List.mem_map.mp hother
      rw [expire_leaseID]
      exact hmem before hbefore
    rw [lastEntry_of_not_mem hmem] at hlast
    refine ⟨entry, ?_, hholds⟩
    rw [lastEntry_of_not_mem fun other hother => hnone other (List.mem_of_mem_filter hother), List.find?_append,
      List.find?_eq_none.mpr fun other hother => by simpa using hnone other (List.mem_of_mem_filter hother)]
    exact hlast

theorem Covered.edit {entries : List UsageEntry} (h : Covered archive b leaseID) (hb : b.Proper)
    (hb' : UsageBudget.Proper { b with entries })
    (hsame : ∀ entry : UsageEntry, entry.leaseID = leaseID → (entry ∈ entries ↔ entry ∈ b.entries)) :
    Covered archive { b with entries } leaseID :=
  h.congr hb hb' rfl hsame

theorem UsageBudget.Proper.append (hb : b.Proper) {entry : UsageEntry} (hnew : ∀ other ∈ b.entries, other.leaseID ≠ entry.leaseID)
    (hfull : entry.active = true → Duration.seconds b.reservation ≤ entry.seconds) :
    UsageBudget.Proper { b with entries := b.entries ++ [entry] } := by
  constructor
  · rw [List.map_append, List.nodup_append]
    refine ⟨hb.leases, by simp, ?_⟩
    intro lease hlease other hother
    obtain ⟨before, hbefore, rfl⟩ := List.mem_map.mp hlease
    rw [List.map_cons, List.map_nil, List.mem_singleton] at hother
    exact hother ▸ hnew before hbefore
  · intro other hother hactive
    rcases List.mem_append.mp hother with hother | hother
    · exact hb.full other hother hactive
    · rw [List.mem_singleton.mp hother] at hactive ⊢
      exact hfull hactive

theorem UsageBudget.Proper.updateFirst (hb : b.Proper) {p : UsageEntry → Bool} {f : UsageEntry → UsageEntry}
    (hlease : ∀ entry, p entry → (f entry).leaseID = entry.leaseID)
    (hfull : ∀ entry, p entry → (f entry).active = true → Duration.seconds b.reservation ≤ (f entry).seconds) :
    UsageBudget.Proper { b with entries := updateFirst p f b.entries } := by
  constructor
  · rw [map_updateFirst hlease]
    exact hb.leases
  · intro entry hentry hactive
    rcases mem_updateFirst hentry with hentry | ⟨before, hfind, rfl⟩
    · exact hb.full entry hentry hactive
    · exact hfull before (List.find?_some hfind) hactive

theorem mem_updateFirst_iff {p : UsageEntry → Bool} {f : UsageEntry → UsageEntry}
    (hlease : ∀ entry, p entry → (f entry).leaseID = entry.leaseID) (hp : ∀ entry, p entry → entry.leaseID ≠ leaseID)
    {entry : UsageEntry} (hentry : entry.leaseID = leaseID) {l : List UsageEntry} :
    entry ∈ updateFirst p f l ↔ entry ∈ l := by
  constructor
  · intro hmem
    rcases mem_updateFirst hmem with hmem | ⟨before, hfind, rfl⟩
    · exact hmem
    · have hbefore := List.find?_some hfind
      exact absurd ((hlease before hbefore).symm.trans hentry) (hp before hbefore)
  · intro hmem
    refine mem_updateFirst_of_not hmem ?_
    by_contra hpentry
    exact hp entry (by simpa using hpentry) hentry

end Ledgers

/-! ### The calls -/

theorem ne_of_activeFor {leaseID other : String} (hne : leaseID ≠ other) {entry : UsageEntry}
    (h : entry.activeFor other = true) : entry.leaseID ≠ leaseID := by
  simp only [UsageEntry.activeFor, Bool.and_eq_true, decide_eq_true_eq] at h
  exact fun heq => hne (heq.symm.trans h.1)

theorem keeps_refl {α : Type} (b : UsageBudget) (result : α) (kept : String → Prop) :
    Keeps b { result, budget := b } kept :=
  ⟨id, rfl, fun _ _ _ _ => id⟩

theorem keeps_prune {α : Type} (b : UsageBudget) (result : α) (saved : Option (List UsageEntry)) (now : Int) (kept : String → Prop) :
    Keeps b { result, budget := b.prune now, saved, dropped := b.pruned now } kept :=
  ⟨fun hb => hb.prune now, rfl, fun _ _ _ hb h => h.prune hb now⟩

theorem keeps_reserve (b : UsageBudget) (leaseID : String) (now maximum : Int) (disk : Option String) :
    Keeps b (b.reserve leaseID now maximum disk) (· ≠ leaseID) := by
  unfold reserve
  dsimp only
  split
  · exact keeps_prune b _ none now _
  · rename_i hnew
    split
    · exact keeps_prune b _ none now _
    · split
      · cases disk with
        | some failure => exact keeps_prune b _ _ now _
        | none =>
          have hfresh : ∀ other ∈ (b.prune now).entries, other.leaseID ≠ leaseID := by
            intro other hother heq
            exact hnew (List.any_eq_true.mpr ⟨other, hother, decide_eq_true heq⟩)
          have hproper : b.Proper → UsageBudget.Proper
              { b.prune now with entries := (b.prune now).entries ++ [(b.prune now).reserved leaseID now] } := fun hb =>
            (hb.prune now).append hfresh fun _ => le_rfl
          refine ⟨hproper, rfl, fun archive other hother hb h => ?_⟩
          refine (h.prune hb now).edit (hb.prune now) (hproper hb) fun entry hentry => ?_
          rw [List.mem_append, List.mem_singleton]
          refine ⟨fun hmem => hmem.resolve_right ?_, Or.inl⟩
          rintro rfl
          exact hother hentry.symm
      · exact keeps_prune b _ none now _

theorem keeps_settleAt (b : UsageBudget) (leaseID : String) (stoppedAt now : Int) (disk : Option String) :
    Keeps b (b.settleAt leaseID stoppedAt now disk) (· ≠ leaseID) := by
  unfold settleAt
  split
  · have hproper : b.Proper → UsageBudget.Proper
        { b with entries := updateFirst (·.activeFor leaseID) (settled stoppedAt now) b.entries } := fun hb =>
      hb.updateFirst (fun _ _ => rfl) fun _ _ hactive => by simp [settled] at hactive
    cases disk with
    | some failure => exact ⟨id, rfl, fun _ _ _ _ => id⟩
    | none =>
      refine ⟨fun hb => (hproper hb).prune now, rfl, fun archive other hother hb h => ?_⟩
      refine Covered.prune (h.edit hb (hproper hb) fun entry hentry => ?_) (hproper hb) now
      exact mem_updateFirst_iff (f := settled stoppedAt now) (fun _ _ => rfl) (fun _ => ne_of_activeFor hother) hentry
  · exact keeps_refl b _ _

theorem keeps_forfeit (b : UsageBudget) (leaseID : String) (now : Int) (disk : Option String) :
    Keeps b (b.forfeit leaseID now disk) (· ≠ leaseID) := by
  unfold forfeit
  split
  · have hproper : b.Proper → UsageBudget.Proper
        { b with entries := updateFirst (·.activeFor leaseID) (forfeited now) b.entries } := fun hb =>
      hb.updateFirst (fun _ _ => rfl) fun _ _ hactive => by simp [forfeited] at hactive
    cases disk with
    | some failure => exact ⟨id, rfl, fun _ _ _ _ => id⟩
    | none =>
      refine ⟨hproper, rfl, fun archive other hother hb h => ?_⟩
      refine h.edit hb (hproper hb) fun entry hentry => ?_
      exact mem_updateFirst_iff (f := forfeited now) (fun _ _ => rfl) (fun _ => ne_of_activeFor hother) hentry
  · exact keeps_refl b _ _

theorem keeps_release (b : UsageBudget) (leaseID : String) (disk : Option String) :
    Keeps b (b.release leaseID disk) (· ≠ leaseID) := by
  unfold release
  split
  · have hsub : (b.entries.eraseP (·.activeFor leaseID)).Sublist b.entries := List.eraseP_sublist
    have hproper : b.Proper → UsageBudget.Proper { b with entries := b.entries.eraseP (·.activeFor leaseID) } := fun hb =>
      ⟨hb.leases.sublist (hsub.map _), fun entry hentry => hb.full entry (hsub.subset hentry)⟩
    cases disk with
    | some failure => exact ⟨id, rfl, fun _ _ _ _ => id⟩
    | none =>
      refine ⟨hproper, rfl, fun archive other hother hb h => ?_⟩
      refine h.edit hb (hproper hb) fun entry hentry => ⟨fun hmem => hsub.subset hmem, fun hmem => ?_⟩
      refine (List.mem_eraseP_of_neg fun hactive => ?_).mpr hmem
      exact ne_of_activeFor hother hactive hentry
  · exact keeps_refl b _ _

theorem keeps_adopt (b : UsageBudget) (leaseID : String) (startedAt now : Int) (disk : Option String) :
    Keeps b (b.adopt leaseID startedAt now disk) (· ≠ leaseID) := by
  unfold adopt
  split
  · exact keeps_refl b _ _
  · dsimp only
    split
    · rename_i entry hfind
      split
      · exact keeps_refl b _ _
      · have hlease : entry.leaseID = leaseID := by simpa using List.find?_some hfind
        generalize hnew : (if entry.active = true then b.confirmed entry
          else b.adopted leaseID (if startedAt = 0 then now else startedAt)) = new
        have hnewLease : new.leaseID = leaseID := by
          rw [← hnew]
          split
          · exact hlease
          · rfl
        have hkeys : ∀ other : UsageEntry, decide (other.leaseID = leaseID) = true → new.leaseID = other.leaseID := by
          intro other hother
          rw [hnewLease, of_decide_eq_true hother]
        have hproper : b.Proper → UsageBudget.Proper
            { b with entries := updateFirst (fun other => decide (other.leaseID = leaseID)) (fun _ => new) b.entries } := by
          intro hb
          refine hb.updateFirst hkeys fun _ _ _ => ?_
          rw [← hnew]
          split
          · exact le_max_right _ _
          · exact le_rfl
        cases disk with
        | some failure => exact ⟨id, rfl, fun _ _ _ _ => id⟩
        | none =>
          refine ⟨hproper, rfl, fun archive other hother hb h => ?_⟩
          refine h.edit hb (hproper hb) fun entry hentry => ?_
          exact mem_updateFirst_iff hkeys (fun e he heq => hother (heq.symm.trans (of_decide_eq_true he))) hentry
    · rename_i hfind
      have hfresh : ∀ other ∈ b.entries, other.leaseID ≠ leaseID := by
        intro other hother heq
        exact List.find?_eq_none.mp hfind other hother (decide_eq_true heq)
      have hproper : b.Proper → UsageBudget.Proper
          { b with entries := b.entries ++ [b.adopted leaseID (if startedAt = 0 then now else startedAt)] } := fun hb =>
        hb.append hfresh fun _ => le_rfl
      refine ⟨hproper, rfl, fun archive other hother hb h => ?_⟩
      refine h.edit hb (hproper hb) fun entry hentry => ?_
      rw [List.mem_append, List.mem_singleton]
      refine ⟨fun hmem => hmem.resolve_right ?_, Or.inl⟩
      rintro rfl
      exact hother hentry.symm

theorem covered_adopt {b : UsageBudget} (hb : b.Proper) {leaseID : String} {startedAt now : Int} {disk : Option String}
    (h : (b.adopt leaseID startedAt now disk).result = none) (archive : List UsageEntry) :
    Covered ((b.adopt leaseID startedAt now disk).dropped ++ archive) (b.adopt leaseID startedAt now disk).budget leaseID := by
  have hproper := (keeps_adopt b leaseID startedAt now disk).proper hb
  have hmem : ∃ entry ∈ (b.adopt leaseID startedAt now disk).budget.entries, entry.leaseID = leaseID ∧ entry.active = true := by
    unfold adopt at h ⊢
    split at h
    · simp at h
    · rename_i hlease
      rw [if_neg hlease]
      dsimp only at h ⊢
      split at h
      · rename_i entry hfind
        have hsame : entry.leaseID = leaseID := by simpa using List.find?_some hfind
        split at h
        · rename_i hconfirmed
          rw [if_pos hconfirmed]
          exact ⟨entry, List.mem_of_find?_eq_some hfind, hsame, (Bool.and_eq_true _ _ ▸ hconfirmed).1⟩
        · rename_i hconfirmed
          rw [if_neg hconfirmed]
          cases disk with
          | some failure => simp at h
          | none =>
            refine ⟨_, apply_mem_updateFirst hfind, ?_⟩
            split
            · rename_i hactive
              exact ⟨hsame, hactive⟩
            · exact ⟨rfl, rfl⟩
      · exact ⟨_, List.mem_append_right _ (List.mem_singleton_self _), rfl, rfl⟩
  obtain ⟨entry, hentry, hlease, hactive⟩ := hmem
  exact ⟨entry, lastEntry_of_mem hproper hentry hlease, hproper.full entry hentry hactive, Or.inl hactive⟩

theorem adopt_refused {b : UsageBudget} {leaseID : String} {startedAt now : Int} {failure : Err}
    (h : (b.adopt leaseID startedAt now none).result = some failure) :
    (b.adopt leaseID startedAt now none).budget = b ∧ (b.adopt leaseID startedAt now none).dropped = [] := by
  unfold adopt at h ⊢
  split at h
  · simp [*]
  · dsimp only at h
    split at h
    · split at h <;> simp at h
    · simp at h

theorem ended_of_mem {activeLeases : List String} {now : Int} {entry : UsageEntry} (h : entry.leaseID ∈ activeLeases) :
    ended activeLeases now entry = entry := by
  unfold ended
  rw [if_neg]
  simp [h]

@[simp] theorem ended_leaseID (activeLeases : List String) (now : Int) (entry : UsageEntry) :
    (ended activeLeases now entry).leaseID = entry.leaseID := by
  unfold ended
  split <;> rfl

theorem keeps_reconcile (b : UsageBudget) (activeLeases : List String) (now : Int) (disk : Option String) :
    Keeps b (b.reconcile activeLeases now disk) (· ∈ activeLeases) := by
  have hproper : b.Proper → UsageBudget.Proper { b with entries := b.entries.map (ended activeLeases now) } := by
    intro hb
    constructor
    · rw [List.map_map, show (fun entry : UsageEntry => entry.leaseID) ∘ ended activeLeases now = fun entry => entry.leaseID from
        funext fun entry => ended_leaseID activeLeases now entry]
      exact hb.leases
    · intro entry hentry hactive
      obtain ⟨before, hbefore, rfl⟩ := List.mem_map.mp hentry
      unfold ended at hactive ⊢
      split at hactive
      · simp at hactive
      · rename_i hopen
        rw [if_neg hopen]
        exact hb.full before hbefore hactive
  have hclosed : ∀ archive leaseID, leaseID ∈ activeLeases → b.Proper → Covered archive b leaseID →
      Covered archive { b with entries := b.entries.map (ended activeLeases now) } leaseID := by
    intro archive leaseID hlease hb h
    refine h.edit hb (hproper hb) fun entry hentry => ?_
    rw [List.mem_map]
    constructor
    · rintro ⟨before, hbefore, rfl⟩
      rw [ended_leaseID] at hentry
      rwa [ended_of_mem (hentry ▸ hlease)]
    · exact fun hmem => ⟨entry, hmem, ended_of_mem (hentry ▸ hlease)⟩
  unfold reconcile
  dsimp only
  split
  · cases disk with
    | some failure => exact ⟨id, rfl, fun _ _ _ _ => id⟩
    | none => exact ⟨fun hb => (hproper hb).prune now, rfl, fun archive leaseID hlease hb h =>
      (hclosed archive leaseID hlease hb h).prune (hproper hb) now⟩
  · exact ⟨fun hb => (hproper hb).prune now, rfl, fun archive leaseID hlease hb h =>
      (hclosed archive leaseID hlease hb h).prune (hproper hb) now⟩

theorem proper_load {limit window reservation now : Int} {file : List UsageEntry} {disk : Option String}
    (h : (load limit window reservation file now disk).result = none) :
    (load limit window reservation file now disk).budget.Proper := by
  unfold load at h ⊢
  split at h
  · simp at h
  · rename_i hconfig
    rw [if_neg hconfig]
    dsimp only at h ⊢
    split at h
    · simp at h
    · rename_i hvalid
      have hproper : UsageBudget.Proper { limit, window, reservation, entries := file } := by
        obtain ⟨hentries, -⟩ := (validate_eq_none_iff _).mp hvalid
        exact ⟨hentries.leases, fun entry hentry => (hentries.each entry hentry).full⟩
      split
      · exact hproper.prune now
      · exact hproper.prune now

theorem load_reservation (limit window reservation now : Int) (file : List UsageEntry) (disk : Option String) :
    (load limit window reservation file now disk).budget.reservation = reservation := by
  unfold load
  dsimp only
  split
  · rfl
  · split
    · rfl
    · split <;> rfl

end RunnerYard
