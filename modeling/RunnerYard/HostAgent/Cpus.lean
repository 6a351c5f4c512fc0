import RunnerYard.HostAgent.Storage

/-!
# CPU lists and pinned slots

`ParseCPUList` and `slotCPUSet` of `hostagent/agent.go`. `Denotes` says which texts are lists of CPUs, apart from the loop that reads them; the loop compares a part only with the last CPU it has collected, which is the end of the part before.
-/

namespace RunnerYard.HostAgent

def maxCPU : Int := 8191

def isSpace (c : Char) : Bool :=
  c.toNat ∈ [0x09, 0x0a, 0x0b, 0x0c, 0x0d, 0x20, 0x85, 0xa0, 0x1680, 0x2028, 0x2029, 0x202f, 0x205f, 0x3000] || (0x2000 ≤ c.toNat && c.toNat ≤ 0x200a)

def trimSpace (s : String) : String := String.ofList ((s.toList.dropWhile isSpace).reverse.dropWhile isSpace).reverse

inductive CPUListError where
  | empty
  | invalid
deriving DecidableEq, Repr

def span (low high : Int) : List Int := (List.range (high + 1 - low).toNat).map fun n : Nat => low + n

/-- The two ends that a part gives, before they are checked. -/
def partEnds (part : String) : Option (Int × Int) :=
  match Text.cut '-' part with
  | none => (Text.atoi part).map fun low => (low, low)
  | some (first, last) => (Text.atoi first).bind fun low => (Text.atoi last).map fun high => (low, high)

/-- The loop of `ParseCPUList`, with the CPUs collected so far. -/
def parseParts (cpus : List Int) : List String → Option (List Int)
  | [] => some cpus
  | part :: parts =>
    match partEnds part with
    | none => none
    | some (low, high) =>
      if low < 0 || high < low || maxCPU < high || cpus.getLast?.any (low ≤ ·) then none else parseParts (cpus ++ span low high) parts

def parseCPUList (list : String) : Except CPUListError (List Int) :=
  let list := trimSpace list
  if list = "" then .error .empty
  else
    match parseParts [] (Text.split ',' list) with
    | none => .error .invalid
    | some cpus => .ok cpus

/-! ### What a list denotes -/

/-- A part is a number, or two numbers around a hyphen. The numbers are what `Atoi` reads; `signed` says whether the first one may have a minus sign. -/
def PartDenotes (signed : Bool) (part : String) (ends : Int × Int) : Prop :=
  (Text.atoi part = some ends.1 ∧ ends.2 = ends.1 ∧ (signed ∨ '-' ∉ part.toList)) ∨
    ∃ first last, part = first ++ "-" ++ last ∧ Text.atoi first = some ends.1 ∧ Text.atoi last = some ends.2 ∧ (signed ∨ '-' ∉ first.toList)

/-- The ends of the parts: none empty, all within bounds, each part behind the one before. -/
def Ascending (ends : List (Int × Int)) : Prop := (∀ e ∈ ends, 0 ≤ e.1 ∧ e.1 ≤ e.2 ∧ e.2 ≤ maxCPU) ∧ ends.Pairwise fun e e' => e.2 < e'.1

def Denotes (signed : Bool) (list : String) (ends : List (Int × Int)) : Prop :=
  trimSpace list ≠ "" ∧ List.Forall₂ (PartDenotes signed) (Text.split ',' (trimSpace list)) ends ∧ Ascending ends

theorem mem_span {low high c : Int} : c ∈ span low high ↔ low ≤ c ∧ c ≤ high := by
  simp only [span, List.mem_map, List.mem_range]
  constructor
  · rintro ⟨n, hn, rfl⟩
    omega
  · intro hc
    exact ⟨(c - low).toNat, by omega, by omega⟩

theorem pairwise_span (low high : Int) : (span low high).Pairwise (· < ·) := by
  rw [span, List.pairwise_map]
  apply List.pairwise_lt_range.imp
  intro a b hab
  omega

theorem getLast?_span {low high : Int} (h : low ≤ high) : (span low high).getLast? = some high := by
  have hlength : (high + 1 - low).toNat = (high - low).toNat + 1 := by omega
  rw [span, hlength, List.range_succ, List.map_append, List.map_singleton, List.getLast?_concat]
  congr 1
  omega

theorem partEnds_eq_some {part : String} {ends : Int × Int} : partEnds part = some ends ↔ PartDenotes false part ends := by
  unfold partEnds PartDenotes
  simp only [Bool.false_eq_true, false_or]
  cases hcut : Text.cut '-' part with
  | none =>
    have hminus := Text.cut_eq_none.mp hcut
    simp only [Option.map_eq_some_iff]
    constructor
    · rintro ⟨low, hlow, rfl⟩
      exact Or.inl ⟨hlow, rfl, hminus⟩
    · rintro (⟨hlow, heq, -⟩ | ⟨first, last, rfl, -⟩)
      · exact ⟨ends.1, hlow, Prod.ext rfl heq.symm⟩
      · simp [String.toList_append] at hminus
  | some parts =>
    obtain ⟨first, last⟩ := parts
    obtain ⟨hpart, hfirst⟩ := Text.cut_eq_some hcut
    simp only [Option.bind_eq_some_iff, Option.map_eq_some_iff]
    constructor
    · rintro ⟨low, hlow, high, hhigh, rfl⟩
      exact Or.inr ⟨first, last, String.toList_inj.mp (by simp [hpart, String.toList_append]), hlow, hhigh, hfirst⟩
    · rintro (⟨-, -, hminus⟩ | ⟨first', last', rfl, hlow, hhigh, hfirst'⟩)
      · simp [hpart] at hminus
      · -- The first hyphen is the one that `Cut` finds.
        have hsame : Text.cut '-' (first' ++ "-" ++ last') = some (first', last') := Text.cut_append hfirst' last'
        rw [hcut, Option.some.injEq, Prod.mk.injEq] at hsame
        rw [hsame.1, hsame.2]
        exact ⟨ends.1, hlow, ends.2, hhigh, rfl⟩

theorem ascending_cons {e : Int × Int} {ends : List (Int × Int)} :
    Ascending (e :: ends) ↔ (0 ≤ e.1 ∧ e.1 ≤ e.2 ∧ e.2 ≤ maxCPU) ∧ (∀ e' ∈ ends, e.2 < e'.1) ∧ Ascending ends := by
  simp only [Ascending, List.forall_mem_cons, List.pairwise_cons]
  tauto

/-- The loop succeeds where the parts that are left denote ascending ranges behind the last CPU, and adds their CPUs. -/
theorem parseParts_eq_some {cpus result : List Int} {parts : List String} :
    parseParts cpus parts = some result ↔
      ∃ ends, List.Forall₂ (PartDenotes false) parts ends ∧ Ascending ends ∧ (∀ e ∈ ends, ∀ c, cpus.getLast? = some c → c < e.1) ∧
        result = cpus ++ ends.flatMap fun e => span e.1 e.2 := by
  induction parts generalizing cpus with
  | nil =>
    simp only [parseParts, Option.some.injEq, List.forall₂_nil_left_iff]
    constructor
    · rintro rfl
      exact ⟨[], rfl, by simp [Ascending], by simp, by simp⟩
    · rintro ⟨ends, rfl, -, -, rfl⟩
      simp
  | cons part parts ih =>
    rw [parseParts]
    constructor
    · intro h
      cases hends : partEnds part with
      | none => simp [hends] at h
      | some e =>
        simp only [hends] at h
        split at h
        · simp at h
        · rename_i hchecks
          simp only [Bool.or_eq_true, decide_eq_true_eq, not_or, not_lt, Option.any_eq_true, not_exists, not_and, not_le] at hchecks
          obtain ⟨⟨⟨hlow, hhigh⟩, hmax⟩, hlast⟩ := hchecks
          obtain ⟨ends, hparts, hascending, hbehind, rfl⟩ := ih.mp h
          have hbehind' : ∀ e' ∈ ends, e.2 < e'.1 := by
            intro e' he'
            exact hbehind e' he' e.2 (by rw [List.getLast?_append, getLast?_span hhigh]; rfl)
          refine ⟨e :: ends, .cons (partEnds_eq_some.mp hends) hparts, ascending_cons.mpr ⟨⟨hlow, hhigh, hmax⟩, hbehind', hascending⟩, ?_, by simp⟩
          intro e' he' c hc
          rcases List.mem_cons.mp he' with rfl | he'
          · exact hlast c hc
          · exact (hlast c hc).trans (hhigh.trans_lt (hbehind' e' he'))
    · rintro ⟨all, hall, hascending, hbehind, rfl⟩
      obtain ⟨e, ends, hpart, hparts, rfl⟩ := List.forall₂_cons_left_iff.mp hall
      obtain ⟨⟨hlow, hhigh, hmax⟩, hlater, hrest⟩ := ascending_cons.mp hascending
      have hchecks : (decide (e.1 < 0) || decide (e.2 < e.1) || decide (maxCPU < e.2) || cpus.getLast?.any (e.1 ≤ ·)) = false := by
        cases hlast : cpus.getLast? with
        | none => simp [hlow, hhigh, hmax]
        | some c => simp [hlow, hhigh, hmax, hbehind e List.mem_cons_self c hlast]
      simp only [partEnds_eq_some.mpr hpart, hchecks]
      refine ih.mpr ⟨ends, hparts, hrest, ?_, by simp⟩
      intro e' he' c hc
      rw [List.getLast?_append, getLast?_span hhigh, Option.some_or, Option.some.injEq] at hc
      exact hc ▸ hlater e' he'

theorem parseCPUList_eq_ok {list : String} {cpus : List Int} :
    parseCPUList list = .ok cpus ↔ ∃ ends, Denotes false list ends ∧ cpus = ends.flatMap fun e => span e.1 e.2 := by
  unfold parseCPUList Denotes
  by_cases hempty : trimSpace list = ""
  · simp [hempty]
  · simp only [hempty, if_false, ne_eq, not_false_eq_true, true_and]
    have hparts := @parseParts_eq_some [] cpus (Text.split ',' (trimSpace list))
    simp only [List.getLast?_nil, reduceCtorEq, false_implies, implies_true, true_and, List.nil_append] at hparts
    constructor
    · intro h
      cases hresult : parseParts [] (Text.split ',' (trimSpace list)) with
      | none => simp [hresult] at h
      | some result =>
        simp only [hresult, Except.ok.injEq] at h
        obtain ⟨ends, hdenotes, hascending, heq⟩ := hparts.mp (h ▸ hresult)
        exact ⟨ends, ⟨hdenotes, hascending⟩, heq⟩
    · rintro ⟨ends, ⟨hdenotes, hascending⟩, heq⟩
      rw [hparts.mpr ⟨ends, hdenotes, hascending, heq⟩]

theorem pairwise_flatMap_span {ends : List (Int × Int)} (h : Ascending ends) : (ends.flatMap fun e => span e.1 e.2).Pairwise (· < ·) := by
  rw [List.pairwise_flatMap]
  refine ⟨fun e _ => pairwise_span _ _, h.2.imp ?_⟩
  intro e e' hlt a ha b hb
  exact (mem_span.mp ha).2.trans_lt (hlt.trans_le (mem_span.mp hb).1)

/-! ### Pinned slots -/

/-- `int(a.Config.SlotCPUs)`. -/
def Config.wholeCPUs (c : Config) : Int := if 0 ≤ c.slotCPUs then c.slotCPUs.floor else c.slotCPUs.ceil

/-- The cores that `slotCPUSet` lists, none if the slot is not pinned. -/
def Config.slotCores (c : Config) (cpus : List Int) (slot : Int) : List Int :=
  let count := c.wholeCPUs
  if count < 1 || (count : Rat) ≠ c.slotCPUs || cpus.length < c.slots * count || slot < 0 || c.slots ≤ slot then []
  else (cpus.drop (slot * count).toNat).take count.toNat

def Config.slotCPUSet (c : Config) (cpus : List Int) (slot : Int) : String := Text.join "," ((c.slotCores cpus slot).map Text.itoa)

theorem slotCores_cases (c : Config) (cpus : List Int) :
    (∀ slot, c.slotCores cpus slot = []) ∨
      ∃ count : Nat, 0 < count ∧ (count : Rat) = c.slotCPUs ∧ c.slots * count ≤ cpus.length ∧
        ∀ slot : Nat, slot < c.slots → c.slotCores cpus slot = (cpus.drop (slot * count)).take count := by
  by_cases hpins : 1 ≤ c.wholeCPUs ∧ (c.wholeCPUs : Rat) = c.slotCPUs ∧ c.slots * c.wholeCPUs ≤ cpus.length
  · obtain ⟨hone, hwhole, hroom⟩ := hpins
    obtain ⟨count, hcount⟩ := Int.eq_ofNat_of_zero_le (show 0 ≤ c.wholeCPUs by omega)
    rw [hcount] at hone hwhole hroom
    refine Or.inr ⟨count, by omega, by exact_mod_cast hwhole, hroom, ?_⟩
    intro slot hslot
    have hchecks : ¬(((count : Int) < 1 ∨ ((count : Int) : Rat) ≠ c.slotCPUs) ∨ (cpus.length : Int) < c.slots * count) := by
      rintro ((h | h) | h)
      · omega
      · exact h hwhole
      · omega
    simp only [Config.slotCores, hcount, Bool.or_eq_true, decide_eq_true_eq, hchecks, false_or]
    rw [if_neg (by omega), ← Nat.cast_mul, Int.toNat_natCast, Int.toNat_natCast]
  · refine Or.inl fun slot => if_pos ?_
    simp only [not_and_or, not_le] at hpins
    simp only [Bool.or_eq_true, decide_eq_true_eq]
    rcases hpins with h | h | h
    · exact Or.inl (Or.inl (Or.inl (Or.inl h)))
    · exact Or.inl (Or.inl (Or.inl (Or.inr h)))
    · exact Or.inl (Or.inl (Or.inr h))

theorem disjoint_blocks {cpus : List Int} (hnodup : cpus.Nodup) {count i j : Nat} (hij : i < j) :
    List.Disjoint ((cpus.drop (i * count)).take count) ((cpus.drop (j * count)).take count) := by
  have hle : (i + 1) * count ≤ j * count := Nat.mul_le_mul_right _ hij
  have hfirst : (cpus.drop (i * count)).take count = (cpus.take ((i + 1) * count)).drop (i * count) := by
    rw [List.take_drop]
    congr 2
    ring
  have hdisjoint : List.Disjoint (cpus.take (j * count)) (cpus.drop (j * count)) := by
    rw [← List.take_append_drop (j * count) cpus] at hnodup
    exact fun cpu hcpu hcpu' => (List.nodup_append.mp hnodup).2.2 cpu hcpu cpu hcpu' rfl
  rw [hfirst]
  intro cpu hcpu hcpu'
  refine hdisjoint ?_ (List.mem_of_mem_take hcpu')
  exact (List.take_prefix_take_left hle).subset (List.mem_of_mem_drop hcpu)

/-- **CPU lists and pinned slots.** `ParseCPUList` succeeds exactly on the lists that denote ascending ranges, with a minus sign at most at a range's high end, and returns their CPUs in order. Then no slot is pinned, or each to as many CPUs as configured, and no two share one. -/
theorem parseCPUList_pins (list : String) :
    (∀ cpus, parseCPUList list = .ok cpus ↔ ∃ ends, Denotes false list ends ∧ cpus = ends.flatMap fun e => span e.1 e.2) ∧
      ∀ cpus, parseCPUList list = .ok cpus → cpus.Pairwise (· < ·) ∧ ∀ c : Config, c.validate = .ok () →
        (∀ slot : Nat, slot < c.slots → c.slotCPUSet cpus slot = "") ∨
          ∀ slot : Nat, slot < c.slots → c.slotCPUSet cpus slot ≠ "" ∧ ((c.slotCores cpus slot).length : Rat) = c.slotCPUs ∧
            (c.slotCores cpus slot).Sublist cpus ∧
              ∀ other : Nat, other < c.slots → other ≠ slot → List.Disjoint (c.slotCores cpus slot) (c.slotCores cpus other) := by
  refine ⟨fun cpus => parseCPUList_eq_ok, fun cpus hcpus => ?_⟩
  obtain ⟨ends, ⟨-, -, hascending⟩, rfl⟩ := parseCPUList_eq_ok.mp hcpus
  have hsorted := pairwise_flatMap_span hascending
  refine ⟨hsorted, fun c _ => ?_⟩
  have hnodup : (ends.flatMap fun e => span e.1 e.2).Nodup := hsorted.imp ne_of_lt
  rcases slotCores_cases c (ends.flatMap fun e => span e.1 e.2) with hnone | ⟨count, hcount, hwhole, hroom, hcores⟩
  · refine Or.inl fun slot _ => ?_
    rw [Config.slotCPUSet, hnone]
    rfl
  · refine Or.inr fun slot hslot => ?_
    have hlength : (c.slotCores (ends.flatMap fun e => span e.1 e.2) slot).length = count := by
      have hle : ((slot + 1 : Nat) : Int) * count ≤ c.slots * count := Int.mul_le_mul_of_nonneg_right (by omega) (by omega)
      rw [hcores slot hslot, List.length_take, List.length_drop]
      push_cast [add_mul] at hle
      have hmul : ((slot * count : Nat) : Int) = slot * count := by push_cast; ring
      omega
    refine ⟨?_, by rw [hlength, hwhole], ?_, ?_⟩
    · obtain ⟨core, rest, hcons⟩ := List.exists_cons_of_length_pos (hlength ▸ hcount)
      rw [Config.slotCPUSet, hcons, List.map_cons]
      intro hempty
      have hchars := congrArg String.toList hempty
      rw [Text.toList_join] at hchars
      have hnil : Text.itoa core = "" := String.toList_inj.mp (List.append_eq_nil_iff.mp hchars).1
      have hliteral := Text.literal_itoa core
      rw [hnil] at hliteral
      exact absurd hliteral (by simp [Text.literal, Text.digits])
    · rw [hcores slot hslot]
      exact (List.take_sublist _ _).trans (List.drop_sublist _ _)
    · intro other hother hne
      rw [hcores slot hslot, hcores other hother]
      rcases Nat.lt_or_gt_of_ne hne with hlt | hlt
      · exact fun cpu hcpu hcpu' => disjoint_blocks hnodup hlt hcpu' hcpu
      · exact disjoint_blocks hnodup hlt

/-- Two slots of two CPUs on a host that has four. -/
theorem parseCPUList_pins_two :
    let c : Config := { slots := 2, image := "runner", slotCPUs := 2 }
    c.slotCPUSet [0, 1, 2, 5] 1 = "2,5" ∧ ([0, 1, 2, 5] : List Int).Pairwise (· < ·) :=
  ⟨by decide, ((parseCPUList_pins " 0-2,5\n").2 [0, 1, 2, 5] (by decide)).1⟩

/-- `-0` is a number that `Atoi` reads as 0, so that it denotes the CPU 0; but the hyphen is taken for that of a range. -/
theorem minus_zero_refused : Denotes true "-0" [(0, 0)] ∧ parseCPUList "-0" = .error .invalid :=
  ⟨⟨by decide, .cons (Or.inl ⟨by decide, rfl, Or.inl rfl⟩) .nil, by simp [Ascending, maxCPU]⟩, by decide⟩

end RunnerYard.HostAgent
