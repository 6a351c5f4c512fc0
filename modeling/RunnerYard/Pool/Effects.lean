import RunnerYard.Pool.System

/-!
# What a call does to a host

`HostMove` lists every way in which a call can change what the pool holds of one host, as far as the pool's decisions rest on it; `HostNew` and `HostDrop` say when a host is entered and when it is forgotten. `exec_entry` is the one case analysis of the sections; every invariant goes through it.
-/

namespace RunnerYard

open Interaction

namespace Pool

/-- What the pool's decisions about a host rest on, besides its slots. -/
structure View where
  name : String
  address : String
  phase : Phase
  ownBoot : Bool
  everReady : Bool
  reserved : Table (Prod.fst : Int × String → Int)
  firstSeen : Int
  lastContact : Int
  bootSince : Int

def HostState.view (h : HostState) : View where
  name := h.host.id
  address := h.host.address
  phase := h.phase
  ownBoot := h.ownBoot
  everReady := h.everReady
  reserved := h.reserved
  firstSeen := h.firstSeen
  lastContact := h.lastContact
  bootSince := h.bootSince

/-- A key that stands for a host being created. -/
def isPlaceholder (id : String) : Bool := "creating-".toList.isPrefixOf id.toList

theorem isPlaceholder_placeholder (seq : Nat) : isPlaceholder (placeholder seq) = true := by
  rw [isPlaceholder, placeholder, String.toList_append, List.isPrefixOf_iff_prefix]
  exact List.prefix_append _ _

inductive HostNew (cfg : Config) (now : Int) : Call → HostState → Prop
  | found {started : Int} {listed : List Host} {host : Host} (hmem : host ∈ listed) (hvalid : validID host.id = true) :
      HostNew cfg now (.applyHosts started listed) (found cfg now host)
  | creating (seq : Nat) : HostNew cfg now .grow (creatingHost now seq)
  | created {key image : String} {host : Host} (hvalid : validID host.id = true) :
      HostNew cfg now (.createFinished key image (.ok host)) (createdHost now image host)

inductive HostDrop : Call → HostState → Prop
  | unlisted {started : Int} {listed : List Host} {h : HostState} (hkeeps : keeps started listed h = false) :
      HostDrop (.applyHosts started listed) h
  | forgotten {h : HostState} : HostDrop (.forget h.id) h
  | finished {h : HostState} {image : String} {result : Except Err Host} : HostDrop (.createFinished h.id image result) h
  | overwritten {h : HostState} (hid : isPlaceholder h.id = true) : HostDrop .grow h

inductive HostMove (cfg : Config) (now : Int) : Call → HostState → HostState → Prop
  | calm {op : Call} {h h' : HostState} (hview : h'.view = h.view) : HostMove cfg now op h h'
  | heard {op : Call} {h h' : HostState} (hview : h'.view = { h.view with lastContact := now }) : HostMove cfg now op h h'
  | relisted {started : Int} {listed : List Host} {host : Host} {h h' : HostState} (hmem : host ∈ listed) (hid : host.id = h.id)
      (hview : h'.view = { h.view with name := host.id, address := host.address }) : HostMove cfg now (.applyHosts started listed) h h'
  | halted {started : Int} {listed : List Host} {host : Host} {h h' : HostState} (hmem : host ∈ listed) (hid : host.id = h.id)
      (hstopper : cfg.stopper = true) (hstate : host.state = hostStopped)
      (hphase : h.phase = .booting ∨ h.phase = .ready ∨ h.phase = .draining) (hchanged : ¬started < h.changedAt)
      (hview : h'.view = { h.view with name := host.id, address := host.address, phase := .stopped }) : HostMove cfg now (.applyHosts started listed) h h'
  | revived {started : Int} {listed : List Host} {host : Host} {h h' : HostState} (hmem : host ∈ listed) (hid : host.id = h.id)
      (hphase : h.phase = .stopped)
      (hview : h'.view =
        { h.view with
          name := host.id, address := host.address, phase := .booting, ownBoot := false, everReady := false, lastContact := 0, bootSince := now }) :
      HostMove cfg now (.applyHosts started listed) h h'
  | readied {results : List (Host × Except Err HostInfo)} {h h' : HostState} (hphase : h.phase = .booting)
      (hview : h'.view = { h.view with phase := .ready, everReady := true, lastContact := now }) :
      HostMove cfg now (.applyInfos results) h h'
  | failed {results : List (Host × Except Err HostInfo)} {h h' : HostState} (hphase : h.phase = .booting)
      (hview : h'.view = { h.view with phase := .draining, lastContact := now }) : HostMove cfg now (.applyInfos results) h h'
  | drained {op : Call} {h h' : HostState} (hphase : h.phase = .ready) (hview : h'.view = { h.view with phase := .draining }) :
      HostMove cfg now op h h'
  | held {leaseID : String} {slot : Int} {h h' : HostState} (htakes : takesLeases cfg h now = true) (hfree : h.isFree slot = true)
      (hview : h'.view = { h.view with reserved := h.reserved.put (slot, leaseID) }) : HostMove cfg now (.reserve leaseID) h h'
  | released {op : Call} {slot : Int} {h h' : HostState} (hop : op = .release h.id slot ∨ ∃ lease, op = .holdSuspect h.id slot lease)
      (hview : h'.view = { h.view with reserved := h.reserved.erase slot }) : HostMove cfg now op h h'
  | committed {slot : Int} {started : Slot} {lease : Lease} {h h' : HostState}
      (hview : h'.view = { h.view with reserved := h.reserved.erase slot, lastContact := now }) :
      HostMove cfg now (.commit h.id slot started lease) h h'
  | leaving {p : Pool} {base : List HostState} {reason : Reason} {stop : Bool} {h h' : HostState}
      (hreason : p.returnReason cfg now base h = some (reason, stop))
      (hview : h'.view = { h.view with phase := if stop then .stopping else .deleting }) : HostMove cfg now .returnCandidates h h'
  | discarded {h h' : HostState} (hphase : h.phase = .stopped) (hview : h'.view = { h.view with phase := .deleting }) :
      HostMove cfg now .returnCandidates h h'
  | restored {previous : Phase} {h h' : HostState} (hphase : h.phase = .deleting ∨ h.phase = .stopping)
      (hview : h'.view = { h.view with phase := previous }) : HostMove cfg now (.restorePhase h.id previous) h h'
  | stopped {h h' : HostState} (hview : h'.view = { h.view with phase := .stopped }) : HostMove cfg now (.hostStoppedAt h.id) h h'
  | starting {h h' : HostState} (hphase : h.phase = .stopped) (hview : h'.view = { h.view with phase := .starting }) :
      HostMove cfg now .grow h h'
  | startFailed {err : Err} {h h' : HostState} (hview : h'.view = { h.view with phase := .stopped }) :
      HostMove cfg now (.startFinished h.id (some err)) h h'
  | started {h h' : HostState} (hview : h'.view =
        { h.view with phase := .booting, ownBoot := true, everReady := false, lastContact := 0, bootSince := now }) :
      HostMove cfg now (.startFinished h.id none) h h'
  | adopted {key image : String} {host : Host} {h h' : HostState} (hid : host.id = h.id)
      (hview : h'.view = { h.view with name := host.id, address := host.address, ownBoot := true }) :
      HostMove cfg now (.createFinished key image (.ok host)) h h'

inductive EntryChange (cfg : Config) (now : Int) (op : Call) : Option HostState → Option HostState → Prop
  | absent : EntryChange cfg now op none none
  | moved {h h' : HostState} (hmove : HostMove cfg now op h h') : EntryChange cfg now op (some h) (some h')
  | entered {h : HostState} (hnew : HostNew cfg now op h) : EntryChange cfg now op none (some h)
  | dropped {h : HostState} (hdrop : HostDrop op h) : EntryChange cfg now op (some h) none
  | renewed {h h' : HostState} (hdrop : HostDrop op h) (hnew : HostNew cfg now op h') : EntryChange cfg now op (some h) (some h')

theorem EntryChange.same {cfg : Config} {now : Int} {op : Call} : (e : Option HostState) → EntryChange cfg now op e e
  | none => .absent
  | some _ => .moved (.calm rfl)

/-! ### The pool's map -/

theorem get_update (p : Pool) (id : String) (f : HostState → HostState) (k : String) :
    (p.update id f).hosts.get k = if k = id then (p.hosts.get id).map (fun h => (f h).withID h.id) else p.hosts.get k := by
  unfold update
  split
  · rename_i hget
    split
    · rename_i heq
      rw [heq, hget]
      rfl
    · rfl
  · rename_i h hget
    have hid : h.id = id := Table.key_of_get hget
    rw [Table.get_put, hget, Option.map_some]
    show (if k = h.id then _ else _) = _
    rw [hid]

theorem get_each (p : Pool) (f : HostState → HostState) (k : String) :
    (p.each f).hosts.get k = (p.hosts.get k).map fun h => (f h).withID h.id := by
  unfold each
  exact Table.get_map p.hosts (fun h => (f h).withID h.id) (fun _ => HostState.withID_id _ _) k

variable {h : HostState} {p : Pool} {r : Reason × Bool}

theorem mem_sorted : h ∈ p.sorted ↔ h ∈ p.hosts.rows := List.mem_insertionSort _

variable {cfg : Config} {now : Int} {op : Call}

theorem entry_update {id : String} {f : HostState → HostState}
    (hmove : ∀ h, p.hosts.get id = some h → HostMove cfg now op h ((f h).withID h.id)) (k : String) :
    EntryChange cfg now op (p.hosts.get k) ((p.update id f).hosts.get k) := by
  rw [get_update]
  split
  · rename_i heq
    subst heq
    cases hget : p.hosts.get k with
    | none => exact .absent
    | some h => exact .moved (hmove h hget)
  · exact .same _

theorem entry_forget {id : String} (hdrop : ∀ h, p.hosts.get id = some h → HostDrop op h) (k : String) :
    EntryChange cfg now op (p.hosts.get k) ((p.forget id).hosts.get k) := by
  rw [forget, Table.get_erase]
  split
  · rename_i heq
    subst heq
    cases hget : p.hosts.get k with
    | none => exact .absent
    | some h => exact .dropped (hdrop h hget)
  · exact .same _

/-! ### Host listings -/

def listedEntry (cfg : Config) (started now : Int) (host : Host) : Option HostState → HostState
  | none => found cfg now host
  | some h => (relisted cfg started now host h).withID h.id

theorem found_id (cfg : Config) (now : Int) (host : Host) : (found cfg now host).id = host.id := by
  unfold found
  split <;> rfl

theorem get_see (started now : Int) (p : Pool) (host : Host) (k : String) :
    (see cfg started now p host).hosts.get k =
      if validID host.id = true ∧ k = host.id then some (listedEntry cfg started now host (p.hosts.get k)) else p.hosts.get k := by
  unfold see
  by_cases hvalid : validID host.id = true
  · simp only [hvalid, Bool.not_true, Bool.false_eq_true, if_false, true_and]
    cases hget : p.hosts.get host.id with
    | some h =>
      simp only [Option.isSome_some, if_true]
      rw [get_update]
      split
      · rename_i heq
        rw [heq, hget]
        rfl
      · rfl
    | none =>
      simp only [Option.isSome_none, Bool.false_eq_true, if_false]
      rw [Table.get_put, found_id]
      split
      · rename_i heq
        rw [heq, hget]
        rfl
      · rfl
  · simp [hvalid]

theorem get_foldl_see (started now : Int) {listed : List Host} (hnodup : (listed.map (·.id)).Nodup) (p : Pool) (k : String) :
    (listed.foldl (see cfg started now) p).hosts.get k =
      match listed.find? fun host => validID host.id && host.id = k with
      | some host => some (listedEntry cfg started now host (p.hosts.get k))
      | none => p.hosts.get k := by
  induction listed generalizing p with
  | nil => rfl
  | cons host rest ih =>
    obtain ⟨hfresh, hrest⟩ := List.nodup_cons.mp hnodup
    rw [List.foldl_cons, ih hrest, get_see]
    by_cases hk : validID host.id = true ∧ k = host.id
    · obtain ⟨hvalid, rfl⟩ := hk
      have hnone : rest.find? (fun other => validID other.id && decide (other.id = host.id)) = none := by
        rw [List.find?_eq_none]
        intro other hother
        simp only [Bool.and_eq_true, decide_eq_true_eq, not_and]
        exact fun _ heq => hfresh (List.mem_map.mpr ⟨other, hother, heq⟩)
      rw [hnone, List.find?_cons]
      simp [hvalid]
    · rw [if_neg hk, List.find?_cons]
      have hskip : (validID host.id && decide (host.id = k)) = false := by
        rw [Bool.and_eq_false_iff]
        by_cases hvalid : validID host.id = true
        · exact Or.inr (decide_eq_false fun heq => hk ⟨hvalid, heq.symm⟩)
        · exact Or.inl (by simpa using hvalid)
      rw [hskip]

theorem move_relisted {started : Int} {listed : List Host} {host : Host} (hmem : host ∈ listed) (hid : host.id = h.id) :
    HostMove cfg now (.applyHosts started listed) h ((relisted cfg started now host h).withID h.id) := by
  unfold relisted reconcile
  extract_lets h₁
  split
  · exact .relisted hmem hid rfl
  rename_i hchanged
  split
  · exact .relisted hmem hid rfl
  rename_i hstopper
  split
  · rename_i hstate
    simp only [Bool.and_eq_true, Bool.or_eq_true, decide_eq_true_eq] at hstate
    have hphase : h.phase = .booting ∨ h.phase = .ready ∨ h.phase = .draining := by
      rcases hstate.2 with (hphase | hphase) | hphase
      · exact Or.inl hphase
      · exact Or.inr (Or.inl hphase)
      · exact Or.inr (Or.inr hphase)
    refine .halted hmem hid (by simpa using hstopper) hstate.1 hphase hchanged ?_
    split <;> rfl
  split
  · rename_i hstate
    simp only [Bool.and_eq_true, decide_eq_true_eq] at hstate
    exact .revived hmem hid hstate.2 rfl
  · exact .relisted hmem hid rfl

theorem entry_applyHosts {started : Int} {listed : List Host} (hnodup : (listed.map (·.id)).Nodup) (p : Pool) (k : String) :
    EntryChange cfg now (.applyHosts started listed) (p.hosts.get k) ((applyHosts cfg started now listed p).hosts.get k) := by
  unfold applyHosts
  rw [Table.get_filter, get_foldl_see started now hnodup]
  split
  · rename_i host hfind
    have hmem := List.mem_of_find?_eq_some hfind
    have hhost := List.find?_some hfind
    simp only [Bool.and_eq_true, decide_eq_true_eq] at hhost
    obtain ⟨hvalid, hid⟩ := hhost
    have hlisted : ∀ h : HostState, h.id = k → keeps started listed h = true := by
      intro h heq
      simp only [keeps, Bool.or_eq_true]
      refine Or.inl (Or.inl (List.any_eq_true.mpr ⟨host, hmem, ?_⟩))
      rw [hvalid, heq, hid]
      simp
    cases hget : p.hosts.get k with
    | none =>
      rw [listedEntry, Option.filter_some, if_pos (hlisted _ ((found_id cfg now host).trans hid))]
      exact .entered (.found hmem hvalid)
    | some h =>
      have hkey : h.id = k := Table.key_of_get hget
      rw [listedEntry, Option.filter_some, if_pos (hlisted ((relisted cfg started now host h).withID h.id) hkey)]
      exact .moved (move_relisted hmem (hid.trans hkey.symm))
  · cases hget : p.hosts.get k with
    | none => exact .absent
    | some h =>
      rw [Option.filter_some]
      split
      · exact .moved (.calm rfl)
      · rename_i hkeeps
        exact .dropped (.unlisted (by simpa using hkeeps))

/-! ### The agents' answers -/

theorem move_probed {results : List (Host × Except Err HostInfo)} {info : HostInfo} {h' : HostState}
    (hmove : HostMove cfg now (.applyInfos results) h h') :
    HostMove cfg now (.applyInfos results) h ((probed cfg p now info h').withID h'.id) := by
  unfold probed
  split
  · exact hmove
  rename_i hphase
  have hbooting : h'.phase = .booting := by simpa using hphase
  -- only a host that is still booting is changed again
  have hview : h.phase = .booting ∧ { h'.view with lastContact := now } = { h.view with lastContact := now } := by
    have hphase' : h'.view.phase = .booting := hbooting
    cases hmove with
    | calm hview => exact ⟨by rw [hview] at hphase'; exact hphase', by rw [hview]⟩
    | heard hview => exact ⟨by rw [hview] at hphase'; exact hphase', by rw [hview]⟩
    | readied _ hview =>
      rw [hview] at hphase'
      exact absurd hphase' (by simp)
    | failed _ hview =>
      rw [hview] at hphase'
      exact absurd hphase' (by simp)
    | drained _ hview =>
      rw [hview] at hphase'
      exact absurd hphase' (by simp)
    | released hop => rcases hop with hop | ⟨_, hop⟩ <;> cases hop
  obtain ⟨hh, hlast⟩ := hview
  split
  · exact .failed hh (congrArg (fun v : View => { v with phase := .draining }) hlast)
  split
  · exact .readied hh (congrArg (fun v : View => { v with phase := .ready, everReady := true }) hlast)
  · exact .heard hlast

theorem entry_applyInfos (results : List (Host × Except Err HostInfo)) (p : Pool) (k : String) :
    EntryChange cfg now (.applyInfos results) (p.hosts.get k) ((applyInfos cfg now results p).hosts.get k) := by
  unfold applyInfos
  -- `q` is the pool after the answers before `(host, result)`
  refine List.foldlRecOn (motive := fun q : Pool => EntryChange cfg now (.applyInfos results) (p.hosts.get k) (q.hosts.get k)) results _
    (.same _) fun q hq r _ => ?_
  obtain ⟨host, result⟩ := r
  cases result with
  | error failure => exact hq
  | ok info =>
    dsimp only
    rw [get_update]
    split
    · rename_i heq
      subst heq
      revert hq
      cases p.hosts.get host.id with
      | none =>
        cases q.hosts.get host.id with
        | none => exact fun _ => .absent
        | some h' =>
          intro hq
          cases hq with
          | entered hnew => cases hnew
      | some h =>
        cases q.hosts.get host.id with
        | none =>
          intro hq
          cases hq with
          | dropped hdrop => cases hdrop
        | some h' =>
          intro hq
          cases hq with
          | moved hmove => exact .moved (move_probed hmove)
          | renewed hdrop => cases hdrop
    · exact hq

theorem view_relist (slots : List Slot) (h : HostState) : (relist now slots h).view = { h.view with lastContact := now } := by
  unfold relist
  extract_lets h₁
  split
  · split <;> rfl
  · rfl

theorem entry_applySlots (results : List (Host × Except Err (List Slot))) (p : Pool) (k : String) :
    EntryChange cfg now op (p.hosts.get k) ((applySlots now results p).hosts.get k) := by
  unfold applySlots
  generalize hresult : List.foldl _ p results = listed
  have hkept : (∀ h, p.hosts.get k = some h → ∃ h', listed.hosts.get k = some h' ∧ (h'.view = h.view ∨ h'.view = { h.view with lastContact := now })) ∧
      (p.hosts.get k = none → listed.hosts.get k = none) := by
    rw [← hresult]
    refine List.foldlRecOn (motive := fun q : Pool => (∀ h, p.hosts.get k = some h → ∃ h', q.hosts.get k = some h' ∧
      (h'.view = h.view ∨ h'.view = { h.view with lastContact := now })) ∧ (p.hosts.get k = none → q.hosts.get k = none)) results _
      ⟨fun h hget => ⟨h, hget, Or.inl rfl⟩, id⟩ fun q hq r _ => ?_
    obtain ⟨hsome, hnone⟩ := hq
    obtain ⟨host, result⟩ := r
    cases result with
    | error failure => exact ⟨hsome, hnone⟩
    | ok slots =>
      dsimp only
      refine ⟨fun h hget => ?_, fun hget => ?_⟩
      · obtain ⟨h', hget', hview⟩ := hsome h hget
        rw [get_update]
        split
        · rename_i heq
          subst heq
          refine ⟨((relist now slots h').withID h'.id), by rw [hget']; rfl, Or.inr ?_⟩
          rw [show ((relist now slots h').withID h'.id).view = (relist now slots h').view from rfl, view_relist]
          rcases hview with hview | hview <;> rw [hview]
        · exact ⟨h', hget', hview⟩
      · rw [get_update]
        split
        · rename_i heq
          subst heq
          rw [hnone hget]
          rfl
        · exact hnone hget
  cases hget : p.hosts.get k with
  | none =>
    rw [hkept.2 hget]
    exact .absent
  | some h =>
    obtain ⟨h', hget', hview | hview⟩ := hkept.1 h hget
    · rw [hget']
      exact .moved (.calm hview)
    · rw [hget']
      exact .moved (.heard hview)

/-! ### Launches -/

theorem pick_spec (hpick : p.pick cfg now = some h) :
    h ∈ p.hosts.rows ∧ takesLeases cfg h now = true ∧ h.freeCount ≠ 0 := by
  have hfold := mem_of_foldl_pick (P := fun h => takesLeases cfg h now = true ∧ h.freeCount ≠ 0) (fun best x => ?_) hpick
  · exact ⟨mem_sorted.mp hfold.1, hfold.2⟩
  split
  · exact Or.inl rfl
  rename_i htakes
  simp only [Bool.or_eq_true, Bool.not_eq_true', decide_eq_true_eq, not_or, Bool.not_eq_false] at htakes
  split
  · exact Or.inr ⟨rfl, htakes⟩
  · dsimp only
    split
    · exact Or.inr ⟨rfl, htakes⟩
    · exact Or.inl rfl

theorem freeSlot_of_freeCount (hfree : h.freeCount ≠ 0) : h.isFree (h.freeSlot.getD 0) = true := by
  obtain ⟨index, hmem, hindex⟩ := List.countP_pos_iff.mp (Nat.pos_of_ne_zero hfree)
  cases hslot : h.freeSlot with
  | none => exact absurd hindex (List.find?_eq_none.mp hslot index hmem)
  | some slot => exact List.find?_some hslot

theorem reserve_spec {leaseID : String} {host : Host} {slot : Int} {image : String}
    (h : (reserve cfg now leaseID p).1 = some (host, slot, image)) : ∃ r, p.hosts.get r.id = some r ∧ r.host = host ∧
      takesLeases cfg r now = true ∧ r.isFree slot = true ∧ (reserve cfg now leaseID p).2 = p.update r.id (hold slot leaseID) := by
  unfold reserve at h ⊢
  split at h
  · simp at h
  · rename_i r hpick
    obtain ⟨hmem, htakes, hfree⟩ := pick_spec hpick
    simp only [Option.some.injEq, Prod.mk.injEq] at h
    obtain ⟨rfl, rfl, rfl⟩ := h
    exact ⟨r, Table.get_of_mem hmem, rfl, htakes, freeSlot_of_freeCount hfree, rfl⟩

theorem entry_reserve (leaseID : String) (p : Pool) (k : String) :
    EntryChange cfg now (.reserve leaseID) (p.hosts.get k) ((reserve cfg now leaseID p).2.hosts.get k) := by
  unfold reserve
  split
  · exact .same _
  · rename_i r hpick
    obtain ⟨hmem, htakes, hfree⟩ := pick_spec hpick
    refine entry_update (fun h hget => ?_) k
    rw [Table.get_of_mem hmem, Option.some.injEq] at hget
    subst hget
    exact .held htakes (freeSlot_of_freeCount hfree) rfl

theorem move_cleared (slot : Int) (leaseID : String) (h : HostState) : HostMove cfg now op h
    ((let h := match h.slots.get slot with
        | some current =>
          if current.leaseID = leaseID || current.leaseID = "" then { h with slots := h.slots.erase slot } else h
        | none => h
      if h.vacant && h.emptySince = 0 then { h with emptySince := now } else h).withID h.id) := by
  refine .calm ?_
  extract_lets h₁
  have hview : h₁.view = h.view := by
    unfold h₁
    split
    · split <;> rfl
    · rfl
  split
  · exact hview
  · exact hview

/-! ### Returning and growing -/

theorem staleCandidate_spec (hcandidate : p.staleCandidate cfg = some h) :
    h.phase = .ready ∧ h ∈ p.hosts.rows := by
  have hfold := mem_of_foldl_pick (P := fun h => h.phase = .ready) (fun best x => ?_) hcandidate
  · exact ⟨hfold.2, mem_sorted.mp hfold.1⟩
  split
  · exact Or.inl rfl
  rename_i hready
  simp only [Bool.or_eq_true, decide_eq_true_eq, not_or, not_not] at hready
  split
  · exact Or.inr ⟨rfl, hready.1⟩
  · split
    · exact Or.inr ⟨rfl, hready.1⟩
    · exact Or.inl rfl

theorem entry_replaceStale (p : Pool) (k : String) :
    EntryChange cfg now op (p.hosts.get k) ((replaceStale cfg now p).hosts.get k) := by
  unfold replaceStale
  split
  · exact .same _
  extract_lets current
  split
  · exact .same _
  rename_i candidate hcandidate
  split
  · exact .same _
  · refine entry_update (fun h hget => ?_) k
    have hready : candidate.phase = .ready ∧ candidate ∈ p.hosts.rows := staleCandidate_spec hcandidate
    rw [Table.get_of_mem hready.2, Option.some.injEq] at hget
    subst hget
    exact .drained hready.1 rfl

theorem mem_expired {kept : Int} {rows : List HostState} {r : HostState × Reason} (hr : r ∈ p.expired cfg now kept rows) :
    r.1 ∈ rows := by
  induction rows generalizing kept with
  | nil => simp [expired] at hr
  | cons h rest ih =>
    rw [expired] at hr
    split at hr
    · rcases List.mem_cons.mp hr with rfl | hr
      · exact List.mem_cons_self
      · exact List.mem_cons_of_mem _ (ih hr)
    · split at hr
      · exact List.mem_cons_of_mem _ (ih hr)
      · split at hr
        · rcases List.mem_cons.mp hr with rfl | hr
          · exact List.mem_cons_self
          · exact List.mem_cons_of_mem _ (ih hr)
        · exact List.mem_cons_of_mem _ (ih hr)

theorem stoppedCandidates_spec {r : HostState × Reason} (hr : r ∈ p.stoppedCandidates cfg now) :
    r.1 ∈ p.hosts.rows ∧ r.1.phase = .stopped := by
  have hmem := (List.mem_insertionSort _).mp (mem_expired hr)
  simpa using List.mem_filter.mp hmem

/-- What `returnReason` finds: a boot that never finished, a host that has been silent for too long, or a host that holds nothing. -/
theorem returnReason_cases {base : List HostState} {reason : Reason} {stop : Bool}
    (hreason : p.returnReason cfg now base h = some (reason, stop)) :
    (reason = .bootTimeout ∧ stop = false ∧ h.phase = .booting ∧ h.ownBoot = true ∧ h.everReady = false) ∨
    (reason = .unreachable ∧ stop = false ∧ (h.phase = .ready ∨ h.phase = .draining ∨ h.phase = .booting) ∧
      cfg.maxLifetime + cfg.unreachableGrace < now - heardOf h) ∨
    (reason ≠ .bootTimeout ∧ reason ≠ .unreachable ∧ (h.phase = .ready ∨ h.phase = .draining) ∧ h.slots = .empty ∧ h.reserved = .empty ∧
      h.lastListed ≠ 0 ∧ now - h.lastListed ≤ 3 * cfg.tick) := by
  unfold returnReason at hreason
  extract_lets bootStart idle at hreason
  split at hreason
  · rename_i hboot
    simp only [Bool.and_eq_true, decide_eq_true_eq, Bool.not_eq_true'] at hboot
    obtain ⟨⟨⟨⟨hphase, hown⟩, hready⟩, -⟩, -⟩ := hboot
    simp only [Option.some.injEq, Prod.mk.injEq] at hreason
    exact Or.inl ⟨hreason.1.symm, hreason.2.symm, hphase, hown, hready⟩
  split at hreason
  · rename_i hsilent
    simp only [Bool.and_eq_true, Bool.or_eq_true, decide_eq_true_eq] at hsilent
    obtain ⟨hphase, hsilent⟩ := hsilent
    simp only [Option.some.injEq, Prod.mk.injEq] at hreason
    exact Or.inr (Or.inl ⟨hreason.1.symm, hreason.2.symm, or_assoc.mp hphase, hsilent⟩)
  split at hreason
  · simp at hreason
  rename_i hphase
  have hphase' : h.phase = .ready ∨ h.phase = .draining := by
    by_cases hready : h.phase = .ready
    · exact Or.inl hready
    · exact Or.inr (by simpa [hready] using hphase)
  split at hreason
  · simp at hreason
  rename_i hempty
  simp only [Bool.or_eq_true, decide_eq_true_eq, not_or, Nat.not_lt, Nat.le_zero, Int.not_lt] at hempty
  obtain ⟨⟨⟨hslots, hreserved⟩, hlisted⟩, hrecent⟩ := hempty
  refine Or.inr (Or.inr ?_)
  have hrest : (reason ≠ .bootTimeout ∧ reason ≠ .unreachable) := by
    split at hreason
    · obtain ⟨why, -, heq⟩ := Option.map_eq_some_iff.mp hreason
      simp only [Prod.mk.injEq] at heq
      rw [← heq.1]
      exact ⟨by simp, by simp⟩
    split at hreason
    · simp at hreason
    split at hreason
    · simp at hreason
    · split at hreason
      · simp only [Option.some.injEq, Prod.mk.injEq] at hreason
        rw [← hreason.1]
        exact ⟨by simp, by simp⟩
      · simp at hreason
    · split at hreason
      · split at hreason
        · simp only [Option.some.injEq, Prod.mk.injEq] at hreason
          rw [← hreason.1]
          exact ⟨by simp, by simp⟩
        · simp only [Option.some.injEq, Prod.mk.injEq] at hreason
          rw [← hreason.1]
          exact ⟨by simp, by simp⟩
      · simp at hreason
  exact ⟨hrest.1, hrest.2, hphase', Table.eq_empty_of_size hslots, Table.eq_empty_of_size hreserved, hlisted, hrecent⟩

theorem up_of_returnReason {base : List HostState}
    (hreason : p.returnReason cfg now base h = some r) : h.phase = .booting ∨ h.phase = .ready ∨ h.phase = .draining := by
  obtain ⟨reason, stop⟩ := r
  rcases returnReason_cases hreason with ⟨-, -, hphase, -⟩ | ⟨-, -, hphase, -⟩ | ⟨-, -, hphase, -⟩
  · exact Or.inl hphase
  · rcases hphase with hphase | hphase | hphase
    · exact Or.inr (Or.inl hphase)
    · exact Or.inr (Or.inr hphase)
    · exact Or.inl hphase
  · exact Or.inr hphase

theorem phase_of_returnReason {base : List HostState}
    (hreason : p.returnReason cfg now base h = some r) : h.phase ≠ .stopped ∧ h.phase ≠ .creating := by
  rcases up_of_returnReason hreason with hphase | hphase | hphase <;> rw [hphase] <;> exact ⟨by simp, by simp⟩

theorem phase_leaving (stop : Bool) (h : HostState) : (leaving stop h).phase ≠ .stopped := by
  cases stop <;> simp [leaving]

theorem get_returnIdle (p : Pool) (k : String) : (p.returnIdle cfg now).hosts.get k = (p.hosts.get k).map fun h =>
    ((p.returnReason cfg now (p.baseHosts cfg) h).elim h fun r => leaving r.2 h).withID h.id := get_each ..

theorem stopped_of_returnIdle (hmem : h ∈ (p.returnIdle cfg now).hosts.rows) (hphase : h.phase = .stopped) :
    p.hosts.get h.id = some h := by
  have hget := Table.get_of_mem hmem
  rw [get_returnIdle] at hget
  obtain ⟨old, hold, heq⟩ := Option.map_eq_some_iff.mp hget
  cases hreason : p.returnReason cfg now (p.baseHosts cfg) old with
  | none =>
    rw [hreason, Option.elim_none] at heq
    have hsame : old = h := heq
    rw [hold, hsame]
  | some r =>
    rw [hreason, Option.elim_some] at heq
    rw [← heq] at hphase
    exact absurd hphase (phase_leaving r.2 old)

theorem not_stopped_of_returnReason (hget : p.hosts.get h.id = some h)
    (hreason : p.returnReason cfg now (p.baseHosts cfg) h = some r) :
    ¬((p.returnIdle cfg now).stoppedCandidates cfg now).any (fun s => s.1.id = h.id) = true := by
  intro hany
  obtain ⟨⟨s, why⟩, hs, hid⟩ := List.any_eq_true.mp hany
  obtain ⟨hrow, hphase⟩ := stoppedCandidates_spec hs
  have hold := stopped_of_returnIdle hrow hphase
  rw [of_decide_eq_true hid, hget, Option.some.injEq] at hold
  subst hold
  exact (phase_of_returnReason hreason).1 hphase

theorem get_returnCandidates_idle (hget : p.hosts.get h.id = some h)
    (hreason : p.returnReason cfg now (p.baseHosts cfg) h = some r) :
    (returnCandidates cfg now p).2.hosts.get h.id = some ((leaving r.2 h).withID h.id) := by
  unfold returnCandidates
  rw [get_each, get_returnIdle, hget, Option.map_some, Option.map_some, hreason, Option.elim_some]
  exact congrArg (fun h => some (HostState.withID h _)) (if_neg (not_stopped_of_returnReason hget hreason))

theorem get_returnCandidates_stopped {s : HostState × Reason} (hs : s ∈ (p.returnIdle cfg now).stoppedCandidates cfg now) :
    p.hosts.get s.1.id = some s.1 ∧ s.1.phase = .stopped ∧
      (returnCandidates cfg now p).2.hosts.get s.1.id = some ((leaving false s.1).withID s.1.id) := by
  obtain ⟨hrow, hphase⟩ := stoppedCandidates_spec hs
  refine ⟨stopped_of_returnIdle hrow hphase, hphase, ?_⟩
  have hchosen : ((p.returnIdle cfg now).stoppedCandidates cfg now).any (fun r => r.1.id = s.1.id) = true :=
    List.any_eq_true.mpr ⟨s, hs, by simp⟩
  unfold returnCandidates
  rw [get_each, Table.get_of_mem hrow, Option.map_some]
  exact congrArg (fun h => some (HostState.withID h _)) (if_pos hchosen)

theorem entry_returnCandidates (p : Pool) (k : String) :
    EntryChange cfg now .returnCandidates (p.hosts.get k) ((returnCandidates cfg now p).2.hosts.get k) := by
  cases hget : p.hosts.get k with
  | none =>
    unfold returnCandidates
    rw [get_each, get_returnIdle, hget]
    exact .absent
  | some h =>
    have hkey : h.id = k := Table.key_of_get hget
    subst hkey
    cases hreason : p.returnReason cfg now (p.baseHosts cfg) h with
    | some r =>
      rw [get_returnCandidates_idle hget hreason]
      obtain ⟨why, stop⟩ := r
      exact .moved (.leaving hreason rfl)
    | none =>
      unfold returnCandidates
      rw [get_each, get_returnIdle, hget, Option.map_some, Option.map_some, hreason, Option.elim_none]
      split
      · rename_i hstopped
        obtain ⟨s, hs, hid⟩ := List.any_eq_true.mp hstopped
        obtain ⟨hold, hphase, -⟩ := get_returnCandidates_stopped hs
        rw [show s.1.id = h.id from of_decide_eq_true hid, hget, Option.some.injEq] at hold
        rw [← hold] at hphase
        exact .moved (.discarded hphase rfl)
      · exact .moved (.calm rfl)

/-- A host that `returnCandidates` claims: as it was, and as it is entered now. -/
structure ClaimedFrom (cfg : Config) (now : Int) (p : Pool) (c : Candidate) (h h' : HostState) : Prop where
  old : p.hosts.get h.id = some h
  host : h.host = c.host
  previous : h.phase = c.previous
  named : h.phase ≠ .creating
  why : (∃ base, p.returnReason cfg now base h = some (c.reason, c.stop)) ∨ c.previous = .stopped ∧ c.stop = false
  new : (returnCandidates cfg now p).2.hosts.get h.id = some h'
  view : h'.view = { h.view with phase := if c.stop then .stopping else .deleting }

theorem candidates_spec {c : Candidate} (hc : c ∈ (returnCandidates cfg now p).1) : ∃ h h', ClaimedFrom cfg now p c h h' := by
  rcases List.mem_append.mp hc with hc | hc
  · obtain ⟨h, hmem, hmap⟩ := List.mem_filterMap.mp hc
    obtain ⟨⟨why, stop⟩, hreason, rfl⟩ := Option.map_eq_some_iff.mp hmap
    have hget := Table.get_of_mem (mem_sorted.mp hmem)
    exact ⟨h, _, hget, rfl, rfl, (phase_of_returnReason hreason).2, Or.inl ⟨_, hreason⟩, get_returnCandidates_idle hget hreason, rfl⟩
  · obtain ⟨s, hs, rfl⟩ := List.mem_map.mp hc
    obtain ⟨hget, hphase, hnew⟩ := get_returnCandidates_stopped hs
    exact ⟨s.1, _, hget, rfl, hphase, by rw [hphase]; simp, Or.inr ⟨rfl, rfl⟩, hnew, rfl⟩

theorem expired_sublist (cfg : Config) (now : Int) (p : Pool) (kept : Int) (rows : List HostState) : ((p.expired cfg now kept rows).map Prod.fst).Sublist rows := by
  induction rows generalizing kept with
  | nil => exact List.Sublist.refl _
  | cons h rest ih =>
    rw [expired]
    split
    · exact (ih kept).cons_cons h
    · split
      · exact (ih (kept + 1)).cons h
      · split
        · exact (ih kept).cons_cons h
        · exact (ih kept).cons h

theorem nodup_sorted_ids (p : Pool) : p.sorted.Pairwise fun a b => a.id ≠ b.id :=
  List.pairwise_map.mp (((List.perm_insertionSort _ p.hosts.rows).map HostState.id).nodup_iff.mpr p.hosts.nodup)

theorem nodup_stoppedCandidates (p : Pool) : (p.stoppedCandidates cfg now).Pairwise fun a b => a.1.id ≠ b.1.id := by
  have hsorted := (List.perm_insertionSort (fun a b => laterStopFirst a b = true)
    (p.hosts.rows.filter (·.phase = .stopped))).map HostState.id
  have hnodup := hsorted.nodup_iff.mpr (p.hosts.nodup.sublist (List.filter_sublist.map HostState.id))
  have hlast := hnodup.sublist ((expired_sublist cfg now p 0 _).map HostState.id)
  rw [List.map_map] at hlast
  exact List.pairwise_map.mp hlast

theorem candidates_nodup (hname : ∀ h ∈ p.hosts.rows, h.phase ≠ .creating → h.host.id = h.id) :
    (returnCandidates cfg now p).1.Pairwise fun a b => a.host.id ≠ b.host.id := by
  have hstopped : ∀ s ∈ (p.returnIdle cfg now).stoppedCandidates cfg now, s.1.host.id = s.1.id := by
    intro s hs
    obtain ⟨hget, hphase, -⟩ := get_returnCandidates_stopped hs
    exact hname s.1 (Table.mem_of_get hget) (by rw [hphase]; simp)
  have hidle : ∀ h ∈ p.sorted, ∀ r, p.returnReason cfg now (p.baseHosts cfg) h = some r → h.host.id = h.id := fun h hmem r hreason =>
    hname h (mem_sorted.mp hmem) (phase_of_returnReason hreason).2
  refine List.pairwise_append.mpr ⟨?_, ?_, ?_⟩
  · rw [List.pairwise_filterMap]
    refine (nodup_sorted_ids p).imp_of_mem fun {a b} ha hb hne => ?_
    intro c hc c' hc'
    obtain ⟨r, hr, rfl⟩ := Option.map_eq_some_iff.mp hc
    obtain ⟨r', hr', rfl⟩ := Option.map_eq_some_iff.mp hc'
    show a.host.id ≠ b.host.id
    rw [hidle a ha r hr, hidle b hb r' hr']
    exact hne
  · rw [List.pairwise_map]
    refine (nodup_stoppedCandidates _).imp_of_mem fun {a b} ha hb hne => ?_
    show a.1.host.id ≠ b.1.host.id
    rw [hstopped a ha, hstopped b hb]
    exact hne
  · intro c hc c' hc' heq
    obtain ⟨h, hmem, hmap⟩ := List.mem_filterMap.mp hc
    obtain ⟨r, hreason, rfl⟩ := Option.map_eq_some_iff.mp hmap
    obtain ⟨s, hs, rfl⟩ := List.mem_map.mp hc'
    have hid : h.id = s.1.id := by
      rw [← hidle h hmem r hreason, ← hstopped s hs]
      exact heq
    obtain ⟨hget, hphase, -⟩ := get_returnCandidates_stopped hs
    rw [← hid, Table.get_of_mem (mem_sorted.mp hmem), Option.some.injEq] at hget
    rw [← hget] at hphase
    exact (phase_of_returnReason hreason).1 hphase

theorem startable_spec (hstart : p.startable cfg now = some h) : h ∈ p.hosts.rows ∧ h.phase = .stopped := by
  unfold startable at hstart
  split at hstart
  · simp at hstart
  have hfold := mem_of_foldl_pick (P := fun h => h.phase = .stopped) (fun best x => ?_) hstart
  · exact ⟨mem_sorted.mp hfold.1, hfold.2⟩
  split
  · exact Or.inl rfl
  rename_i hstopped
  simp only [Bool.or_eq_true, decide_eq_true_eq, not_or, not_not] at hstopped
  split
  · exact Or.inr ⟨rfl, hstopped.1.1⟩
  · split
    · exact Or.inr ⟨rfl, hstopped.1.1⟩
    · exact Or.inl rfl

theorem get_growStarts (cfg : Config) (now : Int) (want : Nat) (p : Pool) (k : String) : (growStarts cfg now want p).2.2.hosts.get k = p.hosts.get k ∨
    ∃ h, p.hosts.get k = some h ∧ h.phase = .stopped ∧
      (growStarts cfg now want p).2.2.hosts.get k = some ((startingHost now h).withID h.id) := by
  induction want generalizing p with
  | zero => exact Or.inl rfl
  | succ want ih =>
    rw [growStarts]
    split
    · exact Or.inl rfl
    · rename_i h hstart
      obtain ⟨hmem, hphase⟩ := startable_spec hstart
      have hrow := Table.get_of_mem hmem
      rcases ih (p.update h.id (startingHost now)) with heq | ⟨h', hget, hphase', hlast⟩
      · rw [heq, get_update]
        split
        · rename_i hk
          subst hk
          exact Or.inr ⟨h, hrow, hphase, by rw [hrow]; rfl⟩
        · exact Or.inl rfl
      · rw [get_update] at hget
        split at hget
        · rename_i hk
          subst hk
          rw [hrow, Option.map_some, Option.some.injEq] at hget
          rw [← hget] at hphase'
          exact absurd hphase' (by simp [HostState.withID, startingHost])
        · exact Or.inr ⟨h', hget, hphase', hlast⟩

theorem growStarts_spec (cfg : Config) (now : Int) (want : Nat) (p : Pool)
    (hname : ∀ k h, p.hosts.get k = some h → h.phase ≠ .creating → h.host.id = k) :
    (growStarts cfg now want p).1.Nodup ∧ ∀ id ∈ (growStarts cfg now want p).1, ∃ h, p.hosts.get id = some h ∧ h.phase = .stopped ∧
      (growStarts cfg now want p).2.2.hosts.get id = some ((startingHost now h).withID h.id) := by
  induction want generalizing p with
  | zero => exact ⟨List.nodup_nil, fun id hid => absurd hid List.not_mem_nil⟩
  | succ want ih =>
    rw [growStarts]
    split
    · exact ⟨List.nodup_nil, fun id hid => absurd hid List.not_mem_nil⟩
    rename_i h hstart
    obtain ⟨hmem, hphase⟩ := startable_spec hstart
    have hrow := Table.get_of_mem hmem
    have hid : h.host.id = h.id := hname h.id h hrow (by rw [hphase]; simp)
    have hupdated : (p.update h.id (startingHost now)).hosts.get h.id = some ((startingHost now h).withID h.id) := by
      rw [get_update, if_pos rfl, hrow]
      rfl
    have hother : ∀ k, k ≠ h.id → (p.update h.id (startingHost now)).hosts.get k = p.hosts.get k := fun k hne => by
      rw [get_update, if_neg hne]
    obtain ⟨hnodup, hrest⟩ := ih (p.update h.id (startingHost now)) fun k h' hget hcreating => by
      by_cases hk : k = h.id
      · subst hk
        rw [hupdated, Option.some.injEq] at hget
        rw [← hget]
        exact hid
      · exact hname k h' (hother k hk ▸ hget) hcreating
    have hfresh : ∀ id ∈ (growStarts cfg now want (p.update h.id (startingHost now))).1, id ≠ h.id := by
      rintro id hin rfl
      obtain ⟨h', hget, hphase', -⟩ := hrest _ hin
      rw [hupdated, Option.some.injEq] at hget
      rw [← hget] at hphase'
      exact absurd hphase' (by simp [HostState.withID, startingHost])
    refine ⟨List.nodup_cons.mpr ⟨fun hin => hfresh _ hin hid, hnodup⟩, fun id hin => ?_⟩
    rcases List.mem_cons.mp hin with rfl | hin
    · rw [hid]
      refine ⟨h, hrow, hphase, ?_⟩
      rcases get_growStarts cfg now want (p.update h.id (startingHost now)) h.id with heq | ⟨h', hget, hphase', -⟩
      · exact heq.trans hupdated
      · rw [hupdated, Option.some.injEq] at hget
        rw [← hget] at hphase'
        exact absurd hphase' (by simp [HostState.withID, startingHost])
    · obtain ⟨h', hget, hphase', hlast⟩ := hrest id hin
      exact ⟨h', hother id (hfresh id hin) ▸ hget, hphase', hlast⟩

theorem growCreates_placeholders (now : Int) (want : Nat) (p : Pool) : ∀ key ∈ (growCreates now want p).1, isPlaceholder key = true := by
  induction want generalizing p with
  | zero => exact fun key hkey => absurd hkey List.not_mem_nil
  | succ want ih =>
    intro key hkey
    rcases List.mem_cons.mp hkey with rfl | hkey
    · exact isPlaceholder_placeholder _
    · exact ih _ key hkey

theorem get_growCreates (now : Int) (want : Nat) (p : Pool) (k : String) : (growCreates now want p).2.hosts.get k = p.hosts.get k ∨
    ∃ seq, k = placeholder seq ∧ (growCreates now want p).2.hosts.get k = some (creatingHost now seq) := by
  induction want generalizing p with
  | zero => exact Or.inl rfl
  | succ want ih =>
    rw [growCreates]
    rcases ih (p.withPlaceholder now) with heq | hlast
    · rw [heq, withPlaceholder, Table.get_put]
      split
      · rename_i hk
        exact Or.inr ⟨p.createSeq + 1, hk, rfl⟩
      · exact Or.inl rfl
    · exact Or.inr hlast

theorem entry_grow (p : Pool) (k : String) : EntryChange cfg now .grow (p.hosts.get k) ((grow cfg now p).2.hosts.get k) := by
  unfold grow
  extract_lets starts creates
  have hstarts := get_growStarts cfg now (p.wanted cfg) { p with demand := 0 } k
  rcases get_growCreates now (creations cfg now starts.2.1 starts.2.2) starts.2.2 k with heq | ⟨seq, hid, hget'⟩
  · rw [heq]
    rcases hstarts with heq' | ⟨h, hget, hphase, hlast⟩
    · rw [heq']
      exact .same _
    · rw [show p.hosts.get k = some h from hget, hlast]
      exact .moved (.starting hphase rfl)
  · rw [hget']
    cases hget : p.hosts.get k with
    | none => exact .entered (.creating seq)
    | some h =>
      have hkey : isPlaceholder h.id = true := by
        rw [Table.key_of_get hget, hid]
        exact isPlaceholder_placeholder seq
      exact .renewed (.overwritten hkey) (.creating seq)

theorem entry_startFinished (id : String) (result : Option Err) (p : Pool) (k : String) :
    EntryChange cfg now (.startFinished id result) (p.hosts.get k) ((startFinished now id result p).hosts.get k) := by
  unfold startFinished
  split
  · exact .same _
  · cases result with
    | some err =>
      refine entry_update (fun h hget => ?_) k
      rw [← Table.key_of_get hget]
      exact .startFailed rfl
    | none =>
      refine entry_update (fun h hget => ?_) k
      rw [← Table.key_of_get hget]
      exact .started rfl

theorem entry_createFinished (key image : String) (result : Except Err Host) (p : Pool) (k : String) :
    EntryChange cfg now (.createFinished key image result) (p.hosts.get k) ((createFinished now key image result p).hosts.get k) := by
  have hforget : EntryChange cfg now (.createFinished key image result) (p.hosts.get k) ((p.forget key).hosts.get k) := by
    refine entry_forget (fun h hget => ?_) k
    rw [← Table.key_of_get hget]
    exact .finished
  unfold createFinished
  extract_lets q backoff q₁ q₂
  cases result with
  | error err =>
    dsimp only
    have hhosts : q₁.hosts = q.hosts := by
      unfold q₁
      split <;> rfl
    split
    · rw [hhosts]
      exact hforget
    · rw [hhosts]
      exact hforget
  | ok host =>
    dsimp only
    split
    · exact hforget
    rename_i hvalid
    have hvalid' : validID host.id = true := by simpa using hvalid
    have hkey : host.id ≠ key → q.hosts.get host.id = p.hosts.get host.id := Table.get_erase_of_ne
    split
    · rename_i hsome
      have hne : host.id ≠ key := by
        intro heq
        rw [heq, show q.hosts.get key = none from Table.get_erase_self ..] at hsome
        simp at hsome
      rw [get_update]
      split
      · rename_i hk
        subst hk
        rw [hkey hne]
        cases hget : p.hosts.get host.id with
        | none => exact .absent
        | some h => exact .moved (.adopted (Table.key_of_get hget).symm rfl)
      · exact hforget
    · rw [Table.get_put]
      split
      · rename_i hk
        have hk' : k = host.id := hk
        subst hk'
        cases hget : p.hosts.get host.id with
        | none => exact .entered (.created hvalid')
        | some h =>
          rename_i hnone
          by_cases heq : host.id = key
          · refine .renewed ?_ (.created hvalid')
            rw [← heq, ← Table.key_of_get hget]
            exact .finished
          · rw [hkey heq, hget] at hnone
            simp at hnone
      · exact hforget

/-! ### Every call -/

/-- What a call makes of the pool's state: of all the world, it reads no more than the time. -/
def effect (cfg : Config) (now : Int) : Call → Pool → Pool
  | .applyHosts started listed => applyHosts cfg started now listed
  | .applyInfos results => applyInfos cfg now results
  | .applySlots results => applySlots now (results.map fun r => (r.host, r.answer))
  | .cleared hostID slot leaseID => cleared now hostID slot leaseID
  | .reserve leaseID => fun p => (reserve cfg now leaseID p).2
  | .release hostID slot => release hostID slot
  | .commit hostID slot started lease => fun p => (commit cfg now hostID slot started lease p).2
  | .holdSuspect hostID slot lease => holdSuspect cfg now hostID slot lease
  | .markForeign hostID slot => markForeign hostID slot
  | .refuseHost hostID reason => refuseHost now hostID reason
  | .noteFull => fun p => (noteFull cfg now p).2
  | .followed resolved => followed cfg now resolved
  | .replaceStale => replaceStale cfg now
  | .returnCandidates => fun p => (returnCandidates cfg now p).2
  | .restorePhase hostID previous => restorePhase hostID previous
  | .forget hostID => fun p => p.forget hostID
  | .hostStoppedAt hostID => hostStoppedAt now hostID
  | .grow => fun p => (grow cfg now p).2
  | .startFinished id result => startFinished now id result
  | .createFinished key image result => createFinished now key image result
  | _ => id

/-- What a request does to a machine that exists. -/
inductive MachineMove (now : Int) : Call → Machine → Machine → Prop
  | stopped (m : Machine) : MachineMove now (.stopHost m.host.id) m m.halt
  | booted (m : Machine) : MachineMove now (.startHost m.host.id) m m.boot
  | started {host : Host} {slot : Int} {request : StartRequest} {m : Machine} (hid : host.id = m.host.id) (hup : m.up = true)
      (hfree : m.containers.get slot = none) : MachineMove now (.agentStart host slot request) m
        { m with containers := m.containers.put (World.containerOf now slot request) }
  | removed {host : Host} {slot : Int} {leaseID : String} {m : Machine} (hid : host.id = m.host.id) :
      MachineMove now (.agentRemove host slot leaseID) m
        { m with containers := m.containers.filter fun c => ¬(c.slot.index = slot ∧ c.slot.leaseID = leaseID) }

/-- The host that a creation makes, also when its answer is an error. -/
def Choice.makes : Choice → Option Host
  | .created (.ok host) _ => some host
  | .created (.error _) made => made
  | _ => Option.none

inductive Executed (cfg : Config) (w : World) : Call → Choice → World → Prop
  | locked (op : Call) (choice : Choice) (commits : List (String × Int × String)) :
      Executed cfg w op choice { w with pool := effect cfg w.clock op w.pool, commits }
  | made {image : String} {choice : Choice} {host : Host} (hmakes : choice.makes = some host) (hfresh : host.id ∉ w.used) :
      Executed cfg w (.createHost image) choice
        { w with machines := w.machines.put { host, bornAt := w.clock }, used := host.id :: w.used }
  | deleted (id : String) (choice : Choice) : Executed cfg w (.deleteHost id) choice (w.removeMachine id)
  | changed {op : Call} {choice : Choice} {m m' : Machine} (hget : w.machines.get m.host.id = some m)
      (hmove : MachineMove w.clock op m m') : Executed cfg w op choice { w with machines := w.machines.put m' }

theorem machine_key {w : World} {id : String} {m : Machine} (hget : w.machines.get id = some m) : m.host.id = id := by
  have hkey := Table.key_of_get hget
  exact hkey

theorem updateMachine_cases (w : World) (id : String) (f : Machine → Machine) (hf : ∀ m, (f m).host = m.host) :
    w.updateMachine id f = w ∨
      ∃ m, w.machines.get m.host.id = some m ∧ m.host.id = id ∧ w.updateMachine id f = { w with machines := w.machines.put (f m) } := by
  unfold World.updateMachine
  split
  · exact Or.inl rfl
  · rename_i m hget
    have hid : m.host.id = id := machine_key hget
    refine Or.inr ⟨m, by rw [hid]; exact hget, hid, ?_⟩
    rw [← hf m]

theorem MachineMove.host {now : Int} {op : Call} {m m' : Machine} (h : MachineMove now op m m') : m'.host = m.host := by
  cases h with
  | stopped => rfl
  | booted => exact Machine.boot_host m
  | started => rfl
  | removed => rfl

theorem exec_executed {op : Call} {choice : Choice} {w w' : World} {answer : op.Ans} (h : World.exec cfg op choice w = some (answer, w')) :
    Executed cfg w op choice w' := by
  -- a request that answers without touching a machine
  have hanswer : ∀ {op : Call} {choice : Choice} {w' : World}, effect cfg w.clock op = id → w = w' → Executed cfg w op choice w' := by
    rintro op choice w' hid rfl
    have hlocked : Executed cfg w op choice _ := .locked op choice w.commits
    rwa [hid] at hlocked
  have hadd : ∀ {image : String} {choice : Choice} {host : Host} {w' : World}, choice.makes = some host → w.addMachine host = some w' →
      Executed cfg w (.createHost image) choice w' := by
    intro image choice host w' hmakes hadd
    unfold World.addMachine at hadd
    split at hadd
    · simp at hadd
    · rename_i hfresh
      simp only [Option.some.injEq] at hadd
      subst hadd
      exact .made hmakes hfresh
  cases op with
  | order hosts =>
    cases choice with
    | order answer =>
      simp only [World.exec] at h
      split at h
      · simp only [Option.some.injEq, Prod.mk.injEq] at h
        exact hanswer rfl h.2
      · simp at h
    | _ => simp [World.exec] at h
  | createHost image =>
    cases choice with
    | created result made =>
      cases result with
      | ok host =>
        simp only [World.exec, Option.map_eq_some_iff, Prod.mk.injEq] at h
        obtain ⟨w₁, hw, -, rfl⟩ := h
        exact hadd rfl hw
      | error err =>
        cases made with
        | none =>
          simp only [World.exec, Option.some.injEq, Prod.mk.injEq] at h
          exact hanswer rfl h.2
        | some host =>
          simp only [World.exec, Option.map_eq_some_iff, Prod.mk.injEq] at h
          obtain ⟨w₁, hw, -, rfl⟩ := h
          exact hadd rfl hw
    | _ => simp [World.exec] at h
  | deleteHost id =>
    cases choice with
    | done failure effect =>
      simp only [World.exec, Option.some.injEq, Prod.mk.injEq] at h
      obtain ⟨-, rfl⟩ := h
      split
      · exact .deleted id _
      · exact hanswer rfl rfl
    | _ => simp [World.exec] at h
  | stopHost id =>
    cases choice with
    | done failure effect =>
      simp only [World.exec, Option.some.injEq, Prod.mk.injEq] at h
      obtain ⟨-, rfl⟩ := h
      split
      · rcases updateMachine_cases w id Machine.halt (fun _ => rfl) with heq | ⟨m, hget, rfl, heq⟩
        · exact hanswer rfl heq.symm
        · rw [heq]
          exact .changed hget (.stopped m)
      · exact hanswer rfl rfl
    | _ => simp [World.exec] at h
  | startHost id =>
    cases choice with
    | done failure effect =>
      simp only [World.exec, Option.some.injEq, Prod.mk.injEq] at h
      obtain ⟨-, rfl⟩ := h
      split
      · rcases updateMachine_cases w id Machine.boot Machine.boot_host with heq | ⟨m, hget, rfl, heq⟩
        · exact hanswer rfl heq.symm
        · rw [heq]
          exact .changed hget (.booted m)
      · exact hanswer rfl rfl
    | _ => simp [World.exec] at h
  | agentStart host slot request =>
    cases choice with
    | started result effect =>
      cases effect with
      | true =>
        simp only [World.exec, Option.map_eq_some_iff, Prod.mk.injEq] at h
        obtain ⟨w₁, hw, -, rfl⟩ := h
        unfold World.addContainer at hw
        split at hw
        · simp at hw
        · rename_i m hget
          have hid : m.host.id = host.id := machine_key hget
          split at hw
          · rename_i hroom
            simp only [Bool.and_eq_true, Option.isNone_iff_eq_none] at hroom
            rw [World.updateMachine, hget, Option.some.injEq] at hw
            rw [← hw]
            exact .changed (by rw [hid]; exact hget) (.started hid.symm hroom.1 hroom.2)
          · simp at hw
      | false =>
        simp only [World.exec, Option.some.injEq, Prod.mk.injEq] at h
        exact hanswer rfl h.2
    | _ => simp [World.exec] at h
  | agentRemove host slot leaseID =>
    cases choice with
    | done failure effect =>
      simp only [World.exec, Option.some.injEq, Prod.mk.injEq] at h
      obtain ⟨-, rfl⟩ := h
      split
      · unfold World.removeContainer
        rcases updateMachine_cases w host.id
          (fun m => { m with containers := m.containers.filter fun c => ¬(c.slot.index = slot ∧ c.slot.leaseID = leaseID) })
          (fun _ => rfl) with heq | ⟨m, hget, hid, heq⟩
        · exact hanswer rfl heq.symm
        · rw [heq]
          exact .changed hget (.removed hid.symm)
      · exact hanswer rfl rfl
    | _ => simp [World.exec] at h
  | timeLeft | listHosts | resolve | agentInfo | agentList =>
    cases choice <;> simp only [World.exec, Option.some.injEq, Prod.mk.injEq, reduceCtorEq] at h
    exact hanswer rfl h.2
  | commit hostID slot started lease =>
    simp only [World.exec, World.locked, Option.map_some, Option.some.injEq, Prod.mk.injEq] at h
    obtain ⟨-, rfl⟩ := h
    exact .locked (.commit hostID slot started lease) choice _
  | _ =>
    simp only [World.exec, World.read, World.lock, World.locked, Option.some.injEq, Prod.mk.injEq] at h
    obtain ⟨-, rfl⟩ := h
    exact .locked _ choice w.commits

theorem effect_entry (cfg : Config) (now : Int) (op : Call) (p : Pool) (hnodup : ∀ started listed, op = .applyHosts started listed → (listed.map (·.id)).Nodup)
    (k : String) : EntryChange cfg now op (p.hosts.get k) ((effect cfg now op p).hosts.get k) := by
  cases op with
  | applyHosts started listed => exact entry_applyHosts (hnodup started listed rfl) p k
  | applyInfos results => exact entry_applyInfos results p k
  | applySlots results => exact entry_applySlots _ p k
  | cleared hostID slot leaseID => exact entry_update (fun h _ => move_cleared slot leaseID h) k
  | reserve leaseID => exact entry_reserve leaseID p k
  | release hostID slot =>
    refine entry_update (fun h hget => ?_) k
    rw [← Table.key_of_get hget]
    exact .released (Or.inl rfl) rfl
  | commit hostID slot started lease =>
    refine entry_update (fun h hget => ?_) k
    rw [← Table.key_of_get hget]
    exact .committed rfl
  | holdSuspect hostID slot lease =>
    refine entry_update (fun h hget => ?_) k
    rw [← Table.key_of_get hget]
    exact .released (Or.inr ⟨lease, rfl⟩) rfl
  | markForeign hostID slot =>
    refine entry_update (fun h _ => .calm ?_) k
    split <;> rfl
  | refuseHost hostID reason =>
    refine entry_update (fun h _ => ?_) k
    split
    · rename_i hready
      simp only [Bool.and_eq_true, decide_eq_true_eq] at hready
      exact .drained hready.2 rfl
    · exact .calm rfl
  | followed resolved =>
    have hhosts : (followed cfg now resolved p).hosts = p.hosts := by
      unfold followed
      split
      · split
        · rfl
        · split <;> rfl
      · rfl
    show EntryChange cfg now _ _ ((followed cfg now resolved p).hosts.get k)
    rw [hhosts]
    exact .same _
  | replaceStale => exact entry_replaceStale p k
  | returnCandidates => exact entry_returnCandidates p k
  | restorePhase hostID previous =>
    refine entry_update (fun h hget => ?_) k
    split
    · rename_i hphase
      simp only [Bool.or_eq_true, decide_eq_true_eq] at hphase
      rw [← Table.key_of_get hget]
      exact .restored hphase rfl
    · exact .calm rfl
  | forget hostID =>
    refine entry_forget (fun h hget => ?_) k
    rw [← Table.key_of_get hget]
    exact .forgotten
  | hostStoppedAt hostID =>
    refine entry_update (fun h hget => ?_) k
    rw [← Table.key_of_get hget]
    exact .stopped rfl
  | grow => exact entry_grow p k
  | startFinished id result => exact entry_startFinished id result p k
  | createFinished key image result => exact entry_createFinished key image result p k
  | _ => exact .same _

end Pool

end RunnerYard
