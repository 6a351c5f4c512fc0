import Mathlib.Data.List.Infix

/-!
# Regular expressions

Matching in the order of preference that Perl and Go's `regexp` have: a repetition first tries one more round, and a search takes the leftmost place at which there is a match. `run` lists all matches at the start of a text, the preferred one first.

A text that was printed is matched step by step with `First`: the preferred match of the expression at the start of `w ++ rest` is `w`. To skip what stands before it, an expression that `Opens` with a literal has no match where the literal does not occur. `Spells` says which words an expression matches at all.
-/

namespace RunnerYard

section Infix

variable {α : Type} {c : α} {L a b s : List α}

theorem isInfix_append_cons (hc : c ∉ L) (h : L <:+: a ++ c :: b) : L <:+: a ∨ L <:+: b := by
  obtain ⟨before, after, heq⟩ := h
  rw [List.append_assoc] at heq
  rcases List.append_eq_append_iff.mp heq with ⟨mid, ha, hrest⟩ | ⟨mid, hbefore, hrest⟩
  · -- the occurrence starts in `a`, and ends there since it does not reach over `c`
    rcases List.append_eq_append_iff.mp hrest with ⟨tail, hmid, -⟩ | ⟨tail, hL, htail⟩
    · exact Or.inl ⟨before, tail, by rw [ha, hmid, List.append_assoc]⟩
    · cases tail with
      | nil => exact Or.inl ⟨before, [], by rw [ha, hL]; simp⟩
      | cons first tail =>
        rw [List.cons_append, List.cons.injEq] at htail
        exact absurd (hL ▸ List.mem_append_right _ (htail.1 ▸ List.mem_cons_self)) hc
  · cases mid with
    | nil =>
      -- at the place of `c` itself
      cases L with
      | nil => exact Or.inl (List.nil_infix)
      | cons first tail =>
        rw [List.nil_append, List.cons_append, List.cons.injEq] at hrest
        exact absurd (hrest.1 ▸ List.mem_cons_self) hc
    | cons first mid =>
      rw [List.cons_append, List.cons.injEq] at hrest
      exact Or.inr ⟨mid, after, by rw [hrest.2, List.append_assoc]⟩

theorem isInfix_of_head_not_mem {x : α} {L : List α} (hx : x ∉ a) (h : x :: L <:+: a ++ b) : x :: L <:+: b := by
  induction a with
  | nil => exact h
  | cons head rest ih =>
    rw [List.mem_cons, not_or] at hx
    rcases List.infix_cons_iff.mp h with hstart | hrest
    · exact absurd (List.cons_prefix_cons.mp hstart).1 hx.1
    · exact ih hx.2 hrest

theorem isPrefix_of_head_not_mem {x : α} {L : List α} (hx : x ∉ s) (h : x :: L <:+: x :: s) : x :: L <+: x :: s := by
  rcases List.infix_cons_iff.mp h with hstart | hrest
  · exact hstart
  · exact absurd (hrest.subset List.mem_cons_self) hx

end Infix

inductive Regex where
  | empty
  | char (admits : Char → Bool)
  | seq (first second : Regex)
  | star (body : Regex)
  | group (body : Regex)

namespace Regex

/-- What the groups hold, in the order in which they open, and the text after the match. -/
abbrev Match := List (List Char) × List Char

def rounds (round : List Char → List Match) : Nat → List Char → List Match
  | 0, s => [([], s)]
  | fuel + 1, s =>
    (((round s).filter fun m => m.2.length < s.length).flatMap fun m =>
      (rounds round fuel m.2).map fun next => (m.1 ++ next.1, next.2)) ++ [([], s)]

/-- The matches at the start of a text, in order of preference. -/
def run : Regex → List Char → List Match
  | empty, s => [([], s)]
  | char _, [] => []
  | char admits, c :: s => if admits c then [([], s)] else []
  | seq first second, s => (run first s).flatMap fun m => (run second m.2).map fun next => (m.1 ++ next.1, next.2)
  | star body, s => rounds (run body) s.length s
  | group body, s => (run body s).map fun m => (s.take (s.length - m.2.length) :: m.1, m.2)

def one (c : Char) : Regex := char (· == c)

def literal : List Char → Regex
  | [] => empty
  | c :: s => seq (one c) (literal s)

def times (r : Regex) : Nat → Regex
  | 0 => empty
  | n + 1 => seq r (times r n)

def plus (r : Regex) : Regex := seq r (star r)

def search (r : Regex) : List Char → Option Match
  | [] => (run r []).head?
  | c :: s => (run r (c :: s)).head?.or (search r s)

/-- `FindStringSubmatch`, without the match as a whole. -/
def find (r : Regex) (s : String) : Option (List String) := (search r s.toList).map fun m => m.1.map String.ofList

def searchAll (r : Regex) : Nat → List Char → List (List (List Char))
  | 0, _ => []
  | n + 1, s =>
    match search r s with
    | none => []
    | some m => m.1 :: searchAll r n m.2

/-- `FindAllStringSubmatch` for at most `n` matches, of an expression that does not match the empty text. -/
def findAll (r : Regex) (s : String) (n : Nat) : List (List String) := (searchAll r n s.toList).map fun captures => captures.map String.ofList

example : find (seq (literal "a".toList) (group (plus (char Char.isDigit)))) "xa12b" = some ["12"] := by decide

/-! ### The preferred match -/

/-- At the start of `w ++ rest`, the expression prefers to match `w`, with these groups. -/
def First (r : Regex) (w rest : List Char) (captures : List (List Char)) : Prop := (run r (w ++ rest)).head? = some (captures, rest)

variable {r r' : Regex} {w w' rest : List Char} {captures captures' : List (List Char)}

theorem head?_flatMap {α β : Type} {f : α → List β} {l : List α} {x : α} {y : β} (hx : l.head? = some x) (hy : (f x).head? = some y) :
    (l.flatMap f).head? = some y := by
  cases l with
  | nil => cases hx
  | cons head tail =>
    rw [List.head?_cons, Option.some.injEq] at hx
    rw [hx, List.flatMap_cons, List.head?_append, hy, Option.some_or]

theorem First.empty : First empty [] rest [] := rfl

variable {c : Char} {admits : Char → Bool} {s : List Char}

theorem First.char (h : admits c = true) : First (char admits) [c] rest [] := by
  simp [First, run, h]

theorem First.seq (h : First r w (w' ++ rest) captures) (h' : First r' w' rest captures') :
    First (.seq r r') (w ++ w') rest (captures ++ captures') := by
  unfold First at *
  rw [List.append_assoc, run]
  refine head?_flatMap h ?_
  rw [List.head?_map, h']
  rfl

theorem First.group (h : First r w rest captures) : First (.group r) w rest (w :: captures) := by
  unfold First at *
  rw [run, List.head?_map, h]
  simp

theorem First.one (c : Char) : First (one c) [c] rest [] := First.char (by simp)

theorem First.literal (s : List Char) : First (literal s) s rest [] := by
  induction s with
  | nil => exact First.empty
  | cons c s ih => exact (First.one c).seq ih

theorem First.times (h : ∀ c ∈ w, admits c = true) : First (times (.char admits) w.length) w rest [] := by
  induction w with
  | nil => exact First.empty
  | cons c w ih => exact (First.char (h c List.mem_cons_self)).seq (ih fun d hd => h d (List.mem_cons_of_mem _ hd))

theorem First.rounds {words : List (List Char)} (hwords : ∀ word ∈ words, word ≠ [] ∧ ∀ tail, First r word tail []) (hend : run r rest = [])
    {fuel : Nat} (hfuel : words.length ≤ fuel) : (Regex.rounds (run r) fuel (words.flatten ++ rest)).head? = some ([], rest) := by
  induction words generalizing fuel with
  | nil =>
    rw [List.flatten_nil, List.nil_append]
    cases fuel with
    | zero => rfl
    | succ fuel => simp [Regex.rounds, hend]
  | cons word words ih =>
    obtain ⟨fuel, rfl⟩ : ∃ k, fuel = k + 1 := ⟨fuel - 1, by simp at hfuel; omega⟩
    obtain ⟨hword, hmatch⟩ := hwords word List.mem_cons_self
    have hhead := hmatch (words.flatten ++ rest)
    have hrest := ih (fun other hother => hwords other (List.mem_cons_of_mem _ hother)) (by simpa using hfuel : words.length ≤ fuel)
    unfold First at hhead
    rw [List.flatten_cons, List.append_assoc, Regex.rounds, List.head?_append]
    have hround : (((run r (word ++ (words.flatten ++ rest))).filter fun m => m.2.length < (word ++ (words.flatten ++ rest)).length).head? =
        some ([], words.flatten ++ rest)) := by
      cases hrun : run r (word ++ (words.flatten ++ rest)) with
      | nil => simp [hrun] at hhead
      | cons m others =>
        rw [hrun, List.head?_cons, Option.some.injEq] at hhead
        have hpos := List.length_pos_of_ne_nil hword
        rw [hhead, List.filter_cons_of_pos (by simp only [List.length_append, decide_eq_true_eq]; omega), List.head?_cons]
    rw [head?_flatMap hround (y := ([], rest)) (by rw [List.head?_map, hrest]; rfl), Option.some_or]

theorem First.star {words : List (List Char)} (hwords : ∀ word ∈ words, word ≠ [] ∧ ∀ tail, First r word tail []) (hend : run r rest = []) :
    First (.star r) words.flatten rest [] := by
  refine First.rounds hwords hend ?_
  have hlength : words.length ≤ words.flatten.length := by
    clear hend
    induction words with
    | nil => exact Nat.zero_le _
    | cons word words ih =>
      have hword := List.length_pos_of_ne_nil (hwords word List.mem_cons_self).1
      have hrest := ih fun other hother => hwords other (List.mem_cons_of_mem _ hother)
      rw [List.flatten_cons, List.length_append, List.length_cons]
      omega
  rw [List.length_append]
  omega

theorem First.plus (hne : w ≠ []) (h : ∀ c ∈ w, admits c = true) (hend : run (.char admits) rest = []) :
    First (plus (.char admits)) w rest [] := by
  obtain ⟨c, w, rfl⟩ := List.exists_cons_of_ne_nil hne
  have hflat : (w.map fun d => [d]).flatten = w := by rw [← List.flatMap_def, List.flatMap_singleton']
  refine (First.char (h c List.mem_cons_self)).seq ?_
  rw [← hflat]
  refine First.star (fun word hword => ?_) hend
  obtain ⟨d, hd, rfl⟩ := List.mem_map.mp hword
  exact ⟨by simp, fun tail => First.char (h d (List.mem_cons_of_mem _ hd))⟩

/-! ### Searching -/

/-- Every match starts with this text. -/
def Opens (lit : List Char) (r : Regex) : Prop := ∀ s, run r s ≠ [] → lit <+: s

theorem run_one_eq_nil {d : Char} (h : d ≠ c) : run (one c) (d :: s) = [] := by
  simp [one, run, h]

theorem run_seq_ne_nil (h : run (.seq r r') w ≠ []) : ∃ m ∈ run r w, run r' m.2 ≠ [] := by
  obtain ⟨m, hm⟩ := List.exists_mem_of_ne_nil _ h
  obtain ⟨first, hfirst, hmap⟩ := List.mem_flatMap.mp hm
  exact ⟨first, hfirst, fun hnil => by simp [hnil] at hmap⟩

theorem mem_run_literal {lit : List Char} {m : Match} (h : m ∈ run (literal lit) s) : s = lit ++ m.2 := by
  induction lit generalizing s m with
  | nil =>
    rw [literal, run, List.mem_singleton] at h
    rw [h, List.nil_append]
  | cons c lit ih =>
    obtain ⟨first, hfirst, hmap⟩ := List.mem_flatMap.mp h
    obtain ⟨next, hnext, rfl⟩ := List.mem_map.mp hmap
    cases s with
    | nil => simp [one, run] at hfirst
    | cons d s =>
      simp only [one, run, beq_iff_eq] at hfirst
      split at hfirst
      · rename_i heq
        rw [List.mem_singleton] at hfirst
        rw [hfirst] at hnext
        rw [heq, List.cons_append, ← ih hnext]
      · cases hfirst

theorem opens_literal (lit : List Char) (r : Regex) : Opens lit (.seq (literal lit) r) := by
  intro s hs
  obtain ⟨m, hm, -⟩ := run_seq_ne_nil hs
  exact ⟨m.2, (mem_run_literal hm).symm⟩

theorem search_of_first (h : First r w rest captures) : search r (w ++ rest) = some (captures, rest) := by
  unfold First at h
  cases hs : w ++ rest with
  | nil => rw [search, ← hs, h]
  | cons c s => rw [search, ← hs, h, Option.some_or]

theorem searchAll_congr {s' : List Char} (h : search r s = search r s') (n : Nat) : searchAll r n s = searchAll r n s' := by
  cases n with
  | zero => rfl
  | succ n => rw [searchAll, searchAll, h]

variable {lit s : List Char}

theorem search_eq_none (hopens : Opens lit r) (h : ¬lit <:+: s) : search r s = none := by
  have hrun : ∀ t, ¬lit <:+: t → run r t = [] := fun t ht => by
    by_contra hne
    exact ht (hopens t hne).isInfix
  induction s with
  | nil => rw [search, hrun _ h, List.head?_nil]
  | cons c s ih =>
    rw [search, hrun _ h, List.head?_nil, Option.none_or]
    exact ih fun hs => h (hs.trans (List.suffix_cons c s).isInfix)

theorem search_skip (hopens : Opens lit r) (hc : c ∉ lit) (h : ¬lit <:+: s) : search r (s ++ c :: rest) = search r rest := by
  have hrun : ∀ t, (∃ u, u ++ t = s) → run r (t ++ c :: rest) = [] := by
    rintro t ⟨u, hu⟩
    by_contra hmatch
    have hstart := hopens _ hmatch
    obtain ⟨after, heq⟩ := hstart
    rcases List.append_eq_append_iff.mp heq with ⟨mid, ht, -⟩ | ⟨mid, hlit, hmid⟩
    · exact h ⟨u, mid, by rw [List.append_assoc, ← ht, hu]⟩
    · cases mid with
      | nil => exact h ⟨u, [], by rw [hlit, List.append_nil, List.append_nil, hu]⟩
      | cons d mid =>
        rw [List.cons_append, List.cons.injEq] at hmid
        exact hc (hlit ▸ List.mem_append_right _ (hmid.1 ▸ List.mem_cons_self))
  induction s with
  | nil =>
    have hnone : run r (c :: rest) = [] := hrun [] ⟨[], rfl⟩
    rw [List.nil_append, search, hnone, List.head?_nil, Option.none_or]
  | cons d s ih =>
    rw [List.cons_append, search, ← List.cons_append, hrun (d :: s) ⟨[], rfl⟩, List.head?_nil, Option.none_or]
    refine ih (fun hs => h (hs.trans (List.suffix_cons d s).isInfix)) fun t hresult => ?_
    obtain ⟨u, hu⟩ := hresult
    exact hrun t ⟨d :: u, by rw [List.cons_append, hu]⟩

/-! ### The words of an expression -/

/-- The expression matches the word `w`, with these groups. -/
def Spells : Regex → List Char → List (List Char) → Prop
  | empty, w, captures => w = [] ∧ captures = []
  | char admits, w, captures => ∃ c, admits c = true ∧ w = [c] ∧ captures = []
  | seq first second, w, captures => ∃ w₁ w₂ captures₁ captures₂, Spells first w₁ captures₁ ∧ Spells second w₂ captures₂ ∧
    w = w₁ ++ w₂ ∧ captures = captures₁ ++ captures₂
  | star body, w, captures => ∃ words : List (List Char × List (List Char)), (∀ word ∈ words, Spells body word.1 word.2) ∧
    w = words.flatMap (·.1) ∧ captures = words.flatMap (·.2)
  | group body, w, captures => ∃ inner, Spells body w inner ∧ captures = w :: inner

theorem spells_of_mem_rounds {body : Regex} (hbody : ∀ {s m}, m ∈ run body s → ∃ w, s = w ++ m.2 ∧ Spells body w m.1) {fuel : Nat}
    {m : Match} (h : m ∈ rounds (run body) fuel s) : ∃ w, s = w ++ m.2 ∧ Spells (.star body) w m.1 := by
  have hstop : ∀ t, ∃ w, t = w ++ t ∧ Spells (.star body) w [] := fun t => ⟨[], rfl, [], List.forall_mem_nil _, rfl, rfl⟩
  induction fuel generalizing s m with
  | zero =>
    rw [List.mem_singleton.mp h]
    exact hstop s
  | succ fuel ih =>
    rcases List.mem_append.mp h with hround | hlast
    · obtain ⟨first, hfirst, hmap⟩ := List.mem_flatMap.mp hround
      obtain ⟨next, hnext, rfl⟩ := List.mem_map.mp hmap
      obtain ⟨w, rfl, hw⟩ := hbody (List.mem_filter.mp hfirst).1
      obtain ⟨_, hrest, words, hwords, rfl, hcaptures⟩ := ih hnext
      refine ⟨w ++ words.flatMap (·.1), by rw [hrest, List.append_assoc], (w, first.1) :: words, ?_, rfl, ?_⟩
      · exact List.forall_mem_cons.mpr ⟨hw, hwords⟩
      · rw [hcaptures, List.flatMap_cons]
    · rw [List.mem_singleton.mp hlast]
      exact hstop s

theorem spells_of_mem_run {m : Match} (h : m ∈ run r s) : ∃ w, s = w ++ m.2 ∧ Spells r w m.1 := by
  induction r generalizing s m with
  | empty =>
    rw [run, List.mem_singleton] at h
    exact ⟨[], by rw [h, List.nil_append], rfl, by rw [h]⟩
  | char admits =>
    cases s with
    | nil => cases h
    | cons c s =>
      rw [run] at h
      split at h
      · rename_i hadmits
        rw [List.mem_singleton.mp h]
        exact ⟨[c], rfl, c, hadmits, rfl, rfl⟩
      · cases h
  | seq first second ihfirst ihsecond =>
    obtain ⟨m₁, hm₁, hmap⟩ := List.mem_flatMap.mp h
    obtain ⟨m₂, hm₂, rfl⟩ := List.mem_map.mp hmap
    obtain ⟨w₁, rfl, hw₁⟩ := ihfirst hm₁
    obtain ⟨w₂, hrest, hw₂⟩ := ihsecond hm₂
    exact ⟨w₁ ++ w₂, by rw [hrest, List.append_assoc], w₁, w₂, m₁.1, m₂.1, hw₁, hw₂, rfl, rfl⟩
  | star body ih => exact spells_of_mem_rounds ih h
  | group body ih =>
    obtain ⟨inner, hinner, rfl⟩ := List.mem_map.mp h
    obtain ⟨w, rfl, hw⟩ := ih hinner
    refine ⟨w, rfl, inner.1, hw, ?_⟩
    simp

/-- No word of the expression has this character. -/
def avoids (c : Char) : Regex → Bool
  | empty => true
  | char admits => !admits c
  | seq first second => avoids c first && avoids c second
  | star body => avoids c body
  | group body => avoids c body

theorem Spells.not_mem (hc : r.avoids c = true) (h : Spells r w captures) : c ∉ w := by
  induction r generalizing w captures with
  | empty =>
    rw [h.1]
    exact List.not_mem_nil
  | char admits =>
    obtain ⟨d, hd, rfl, -⟩ := h
    rw [List.mem_singleton]
    rintro rfl
    rw [avoids, hd] at hc
    cases hc
  | seq first second ihfirst ihsecond =>
    obtain ⟨w₁, w₂, _, _, hw₁, hw₂, rfl, -⟩ := h
    rw [avoids, Bool.and_eq_true] at hc
    rw [List.mem_append, not_or]
    exact ⟨ihfirst hc.1 hw₁, ihsecond hc.2 hw₂⟩
  | star body ih =>
    obtain ⟨words, hwords, rfl, -⟩ := h
    rw [List.mem_flatMap]
    rintro ⟨word, hword, hmem⟩
    exact ih hc (hwords word hword) hmem
  | group body ih =>
    obtain ⟨inner, hinner, -⟩ := h
    exact ih hc hinner

def minLength : Regex → Nat
  | empty => 0
  | char _ => 1
  | seq first second => minLength first + minLength second
  | star _ => 0
  | group body => minLength body

theorem Spells.minLength_le (h : Spells r w captures) : r.minLength ≤ w.length := by
  induction r generalizing w captures with
  | empty => exact Nat.zero_le _
  | char admits =>
    obtain ⟨c, -, rfl, -⟩ := h
    exact le_refl 1
  | seq first second ihfirst ihsecond =>
    obtain ⟨w₁, w₂, _, _, hw₁, hw₂, rfl, -⟩ := h
    rw [List.length_append, minLength]
    exact Nat.add_le_add (ihfirst hw₁) (ihsecond hw₂)
  | star body => exact Nat.zero_le _
  | group body ih =>
    obtain ⟨inner, hinner, -⟩ := h
    exact ih hinner

theorem Spells.times {n : Nat} (h : Spells (times (.char admits) n) w captures) :
    w.length = n ∧ (∀ c ∈ w, admits c = true) ∧ captures = [] := by
  induction n generalizing w captures with
  | zero =>
    obtain ⟨rfl, rfl⟩ := h
    exact ⟨rfl, List.forall_mem_nil _, rfl⟩
  | succ n ih =>
    obtain ⟨_, w₂, _, captures₂, ⟨c, hc, rfl, rfl⟩, hrest, rfl, rfl⟩ := h
    obtain ⟨hlength, hall, rfl⟩ := ih hrest
    exact ⟨by simp [hlength], List.forall_mem_cons.mpr ⟨hc, hall⟩, rfl⟩

theorem Spells.literal {lit : List Char} (h : Spells (literal lit) w captures) : w = lit ∧ captures = [] := by
  induction lit generalizing w captures with
  | nil => exact h
  | cons c lit ih =>
    obtain ⟨_, w₂, _, captures₂, ⟨d, hd, rfl, rfl⟩, hrest, rfl, rfl⟩ := h
    obtain ⟨rfl, rfl⟩ := ih hrest
    rw [beq_iff_eq] at hd
    rw [hd]
    exact ⟨rfl, rfl⟩

/-- The text holds no word of the expression. -/
def Without (r : Regex) (s : List Char) : Prop := ∀ w captures, w <:+: s → ¬Spells r w captures

theorem Without.run (h : Without r s) {t : List Char} (ht : t <:+: s) : run r t = [] := by
  by_contra hne
  obtain ⟨m, hm⟩ := List.exists_mem_of_ne_nil _ hne
  obtain ⟨w, rfl, hw⟩ := spells_of_mem_run hm
  exact h w m.1 ((List.prefix_append w m.2).isInfix.trans ht) hw

theorem Without.tail (h : Without r (c :: s)) : Without r s :=
  fun w captures hw => h w captures (hw.trans (List.suffix_cons c s).isInfix)

theorem Without.search (h : Without r s) : search r s = none := by
  induction s with
  | nil => rw [Regex.search, h.run (List.infix_refl _), List.head?_nil]
  | cons c s ih =>
    rw [Regex.search, h.run (List.infix_refl _), List.head?_nil, Option.none_or]
    exact ih h.tail

theorem without_of_literal (r : Regex) (h : ¬lit <:+: s) : Without (.seq (literal lit) r) s := by
  rintro w captures hw ⟨w₁, w₂, _, _, hlit, -, rfl, -⟩
  rw [hlit.literal.1] at hw
  exact h ((List.prefix_append lit w₂).isInfix.trans hw)

theorem Without.append_left {x : Char} {a : List Char} (hstart : ∀ w captures, Spells r w captures → ∃ tail, w = x :: tail) (hx : x ∉ a)
    (h : Without r s) : Without r (a ++ s) := by
  intro w captures hw hspells
  obtain ⟨tail, rfl⟩ := hstart w captures hspells
  exact h _ captures (isInfix_of_head_not_mem hx hw) hspells

theorem starts_with_literal {x : Char} {lit : List Char} {r : Regex} (h : Spells (.seq (literal (x :: lit)) r) w captures) :
    ∃ tail, w = x :: tail := by
  obtain ⟨w₁, w₂, _, _, hlit, -, rfl, -⟩ := h
  exact ⟨lit ++ w₂, by rw [hlit.literal.1, List.cons_append]⟩

theorem without_of_length_lt (h : s.length < r.minLength) : Without r s := by
  intro w captures hw hspells
  have hlength := hw.length_le
  have hmin := hspells.minLength_le
  omega

theorem Without.append_cons {a b : List Char} (hc : r.avoids c = true) (ha : Without r a) (hb : Without r b) : Without r (a ++ c :: b) := by
  intro w captures hw hspells
  rcases isInfix_append_cons (hspells.not_mem hc) hw with hleft | hright
  · exact ha w captures hleft hspells
  · exact hb w captures hright hspells

theorem Without.search_append (hc : r.avoids c = true) (h : Without r s) : Regex.search r (s ++ c :: rest) = Regex.search r rest := by
  have hrun : ∀ t, t <:+: s → Regex.run r (t ++ c :: rest) = [] := by
    intro t ht
    by_contra hne
    obtain ⟨m, hm⟩ := List.exists_mem_of_ne_nil _ hne
    obtain ⟨w, heq, hw⟩ := spells_of_mem_run hm
    rcases List.append_eq_append_iff.mp heq with ⟨mid, rfl, hmid⟩ | ⟨mid, rfl, -⟩
    · -- the word would have to reach over `c`
      cases mid with
      | nil => exact h _ m.1 (by rwa [List.append_nil]) hw
      | cons d mid =>
        rw [List.cons_append, List.cons.injEq] at hmid
        exact hw.not_mem hc (List.mem_append_right _ (hmid.1 ▸ List.mem_cons_self))
    · exact h w m.1 ((List.prefix_append w mid).isInfix.trans ht) hw
  induction s with
  | nil =>
    have hnone := hrun [] (List.infix_refl _)
    rw [List.nil_append] at hnone ⊢
    rw [Regex.search, hnone, List.head?_nil, Option.none_or]
  | cons d s ih =>
    have hsuffix : s <:+: d :: s := (List.suffix_cons d s).isInfix
    rw [List.cons_append, Regex.search, ← List.cons_append, hrun _ (List.infix_refl _), List.head?_nil, Option.none_or]
    exact ih h.tail fun t ht => hrun t (ht.trans hsuffix)

theorem mem_of_search {m : Match} (h : search r s = some m) : ∃ t, m ∈ run r t := by
  induction s with
  | nil => exact ⟨[], List.mem_of_mem_head? h⟩
  | cons c s ih =>
    rw [search, Option.or_eq_some_iff] at h
    rcases h with hhere | ⟨-, hlater⟩
    · exact ⟨c :: s, List.mem_of_mem_head? hhere⟩
    · exact ih hlater

theorem spells_of_mem_searchAll {n : Nat} (h : captures ∈ searchAll r n s) : ∃ w, Spells r w captures := by
  induction n generalizing s with
  | zero => cases h
  | succ n ih =>
    rw [searchAll] at h
    split at h
    · cases h
    · rename_i m hm
      rcases List.mem_cons.mp h with rfl | hrest
      · obtain ⟨t, ht⟩ := mem_of_search hm
        obtain ⟨w, -, hw⟩ := spells_of_mem_run ht
        exact ⟨w, hw⟩
      · exact ih hrest

theorem length_searchAll_le (n : Nat) (s : List Char) : (searchAll r n s).length ≤ n := by
  induction n generalizing s with
  | zero => exact le_refl 0
  | succ n ih =>
    rw [searchAll]
    split
    · exact Nat.zero_le _
    · exact Nat.succ_le_succ (ih _)

end Regex

end RunnerYard
