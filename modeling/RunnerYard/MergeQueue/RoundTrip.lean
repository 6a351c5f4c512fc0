import RunnerYard.MergeQueue.Marker

/-!
# Status comments read back

A comment is a line of its own, a text and markers, one on a line. A pattern finds no match in the text if the text does not hold the common start of all markers, and none in a marker of another kind; in a marker of its kind it finds what was printed.

Stack markers keep whole seconds, so a stack is read back with its time cut to them.
-/

namespace RunnerYard

namespace MergeQueue

open Regex

def IsSHA (sha : String) : Prop := sha.toList.length = 40 ∧ ∀ c ∈ sha.toList, hexDigit c = true

instance (sha : String) : Decidable (IsSHA sha) :=
  decidable_of_iff (sha.toList.length = 40 ∧ sha.toList.all hexDigit = true) (and_congr_right fun _ => List.all_eq_true)

def Own.Valid (own : Own) : Prop := IsSHA own.head ∧ IsSHA own.upstream

instance (own : Own) : Decidable own.Valid := inferInstanceAs (Decidable (_ ∧ _))

structure Stack.Valid (stack : Stack) : Prop where
  base : IsSHA stack.base
  nonempty : stack.members ≠ []
  members : ∀ member ∈ stack.members, 0 < member.number ∧ Text.FitsInt64 member.number ∧ IsSHA member.sha
  distinct : stack.numbers.Nodup
  retry : stack.retry = 0 ∨ stack.retry = 1
  atTime : 0 ≤ unix stack.atTime ∧ Text.FitsInt64 (unix stack.atTime)

def Stack.seconds (stack : Stack) : Stack := { stack with atTime := ofUnix (unix stack.atTime) }

inductive Marker where
  | own (own : Own)
  | stack (stack : Stack)
  | landed (landed : Landed)

namespace Marker

def text : Marker → String
  | own o => ownMarker o
  | stack s => stackMarker s
  | landed l => landedMarker l

def Valid : Marker → Prop
  | own o => o.Valid
  | stack s => s.Valid
  | landed l => IsSHA l.head

def own? : Marker → Option Own
  | own o => some o
  | _ => none

def stack? : Marker → Option Stack
  | stack s => some s
  | _ => none

def landed? : Marker → Option Landed
  | landed l => some l
  | _ => none

end Marker

/-! ### Characters -/

variable {c : Char} {a b : String} {members : List Member} {rest : List Char}

theorem not_mem_of_isSHA {sha : String} (h : IsSHA sha) (hc : hexDigit c = false) : c ∉ sha.toList :=
  fun hmem => absurd (h.2 c hmem) (by simp [hc])

theorem digits_itoa {n : Int} (h : 0 ≤ n) : (Text.itoa n).toList ≠ [] ∧ ∀ c ∈ (Text.itoa n).toList, c.isDigit = true := by
  obtain ⟨m, rfl⟩ := Int.eq_ofNat_of_zero_le h
  simp only [Text.itoa, Nat.toList_repr]
  exact ⟨Nat.toDigits_ne_nil, fun c hc => Nat.isDigit_of_mem_toDigits (by decide) (by decide) hc⟩

theorem toList_memberText (member : Member) : (memberText member).toList = (Text.itoa member.number).toList ++ '@' :: member.sha.toList := by
  simp [memberText]

def lines (markers : List Marker) : List Char := markers.flatMap fun marker => '\n' :: marker.text.toList

theorem toList_statusBody (text : String) (markers : List Marker) :
    (statusBody text (markers.map Marker.text)).toList = statusPrefix.toList ++ '\n' :: ("Merge queue: ".toList ++ text.toList ++ lines markers) := by
  rw [statusBody, Text.toList_join, List.flatMap_cons, List.flatMap_map, lines, String.toList_append]
  rfl

/-! ### What a pattern finds -/

section Search

variable {lit : List Char} {r : Regex} {rest : List Char}

theorem search_newline (hopens : Opens lit r) (hne : lit ≠ []) (hnl : '\n' ∉ lit) : search r ('\n' :: rest) = search r rest :=
  search_skip (s := []) hopens hnl (by simpa using hne)

theorem search_lines (hopens : Opens lit r) (hne : lit ≠ []) (hnl : '\n' ∉ lit) {s : List Char} (h : ¬lit <:+: s) (markers : List Marker) :
    search r (s ++ lines markers) = search r (lines markers) := by
  cases markers with
  | nil =>
    rw [lines, List.flatMap_nil, List.append_nil, search_eq_none hopens h]
    exact (search_eq_none hopens (by simpa using hne)).symm
  | cons marker markers =>
    rw [lines, List.flatMap_cons, List.cons_append, search_skip hopens hnl h, search_newline hopens hne hnl]

theorem search_lines_cons (hopens : Opens lit r) (hne : lit ≠ []) (hnl : '\n' ∉ lit) {marker : Marker} (h : ¬lit <:+: marker.text.toList)
    (markers : List Marker) : search r (lines (marker :: markers)) = search r (lines markers) := by
  rw [lines, List.flatMap_cons, List.cons_append, search_newline hopens hne hnl]
  exact search_lines hopens hne hnl h markers

theorem search_lines_first (hopens : Opens lit r) (hne : lit ≠ []) (hnl : '\n' ∉ lit) {marker : Marker} {markers : List Marker}
    {captures : List (List Char)} (h : First r marker.text.toList (lines markers) captures) :
    search r (lines (marker :: markers)) = some (captures, lines markers) := by
  rw [lines, List.flatMap_cons, List.cons_append, search_newline hopens hne hnl]
  exact search_of_first h

end Search

def Plain (text : String) : Prop := ¬markerPrefix.toList <:+: text.toList

def patterns : List Regex := [Pattern.own, Pattern.stack, Pattern.landed]

def Unmarked (text : String) : Prop := ∀ r ∈ patterns, r.Without text.toList

theorem unmarked_of_plain {text : String} (h : Plain text) : Unmarked text := by
  have hlit : ∀ name : String, markerPrefix.toList <+: name.toList → ¬name.toList <:+: text.toList :=
    fun name hname hoccurs => h (hname.isInfix.trans hoccurs)
  intro r hr
  simp only [patterns, List.mem_cons, List.not_mem_nil, or_false] at hr
  rcases hr with rfl | rfl | rfl
  · exact without_of_literal _ (hlit _ (by decide))
  · exact without_of_literal _ (hlit _ (by decide))
  · exact without_of_literal _ (hlit _ (by decide))

theorem unmarked_of_length_lt {text : String} (h : text.length < 84) : Unmarked text := by
  have hmin : ∀ r ∈ patterns, 84 ≤ r.minLength := by decide
  intro r hr
  have hr' := hmin r hr
  rw [← String.length_toList] at h
  exact without_of_length_lt (by omega)

theorem unmarked_append (ha : '<' ∉ a.toList) (hb : Unmarked b) : Unmarked (a ++ b) := by
  intro r hr
  have hstart : ∀ w captures, r.Spells w captures → ∃ tail, w = '<' :: tail := by
    intro w captures hspells
    simp only [patterns, List.mem_cons, List.not_mem_nil, or_false] at hr
    rcases hr with rfl | rfl | rfl <;> exact starts_with_literal hspells
  rw [String.toList_append]
  exact (hb r hr).append_left hstart ha

theorem unmarked_append_head (ha : Unmarked a) (hb : Unmarked b) (hc : ∀ r ∈ patterns, r.avoids c = true)
    (hhead : b.toList.head? = some c) : Unmarked (a ++ b) := by
  intro r hr
  obtain ⟨rest, hrest⟩ := List.head?_eq_some_iff.mp hhead
  have hb' := hb r hr
  rw [hrest] at hb'
  rw [String.toList_append, hrest]
  exact (ha r hr).append_cons (hc r hr) hb'.tail

/-- A pattern whose matches start like a marker, with `name`, which begins with the letter `initial`. -/
structure Kind (initial : Char) (name : List Char) (r : Regex) : Prop where
  opens : Opens (markerPrefix.toList ++ name) r
  head : name.head? = some initial
  newline : '\n' ∉ name
  status : ¬name <+: "status -->".toList

namespace Kind

variable {initial : Char} {name : List Char} {r : Regex}

theorem ne_nil : markerPrefix.toList ++ name ≠ [] := by simp [markerPrefix]

theorem newline' (h : Kind initial name r) : '\n' ∉ markerPrefix.toList ++ name := by
  rw [List.mem_append, not_or]
  exact ⟨by decide, h.newline⟩

/-- A marker of another kind: the start of markers occurs in it once, and goes on with another name. -/
theorem not_infix {rest : List Char} (hrest : '<' ∉ rest) (hname : ¬name <+: rest) :
    ¬markerPrefix.toList ++ name <:+: markerPrefix.toList ++ rest := by
  intro h
  have htail : '<' ∉ markerPrefix.toList.tail ++ rest := by
    rw [List.mem_append, not_or]
    exact ⟨by decide, hrest⟩
  have hstart : markerPrefix.toList ++ name <+: markerPrefix.toList ++ rest := isPrefix_of_head_not_mem htail h
  exact hname ((List.prefix_append_right_inj _).mp hstart)

theorem search_body (h : Kind initial name r) (hr : r ∈ patterns) {text : String} (htext : Unmarked text) (markers : List Marker) :
    search r (statusBody text (markers.map Marker.text)).toList = search r (lines markers) := by
  have hstatus : ¬markerPrefix.toList ++ name <:+: statusPrefix.toList := not_infix (by decide) h.status
  have hnewline : ∀ r ∈ patterns, r.avoids '\n' = true := by decide
  rw [toList_statusBody, search_skip h.opens h.newline' hstatus]
  have hwithout : r.Without ("Merge queue: ".toList ++ text.toList) := by
    rw [← String.toList_append]
    exact unmarked_append (by decide) htext r hr
  cases markers with
  | nil =>
    rw [lines, List.flatMap_nil, List.append_nil, hwithout.search]
    exact (search_eq_none h.opens (by simp [markerPrefix])).symm
  | cons marker markers =>
    rw [lines, List.flatMap_cons, List.cons_append, hwithout.search_append (hnewline r hr), search_newline h.opens ne_nil h.newline']

end Kind

theorem kind_stack : Kind 's' "stack base=".toList Pattern.stack := ⟨opens_literal _ _, by decide, by decide, by decide⟩

theorem kind_own : Kind 'o' "own head=".toList Pattern.own := ⟨opens_literal _ _, by decide, by decide, by decide⟩

theorem kind_landed : Kind 'l' "landed head=".toList Pattern.landed := ⟨opens_literal _ _, by decide, by decide, by decide⟩

/-! ### Markers -/

/-- A marker without the common start. -/
def Own.tail (own : Own) : String := "own head=" ++ (own.head ++ (" upstream=" ++ (own.upstream ++ " -->")))

def Stack.tail (stack : Stack) : String :=
  "stack base=" ++ (stack.base ++ (" prs=" ++ (Text.join "," (stack.members.map memberText) ++ (" retry=" ++ (Text.itoa stack.retry ++
    (" at=" ++ (Text.itoa (unix stack.atTime) ++ " -->")))))))

def Landed.tail (landed : Landed) : String := "landed head=" ++ (landed.head ++ " -->")

def Marker.tail : Marker → String
  | own o => o.tail
  | stack s => s.tail
  | landed l => l.tail

theorem ownMarker_eq (own : Own) : ownMarker own = markerPrefix ++ own.tail := by
  simp only [ownMarker, Own.tail, String.append_assoc]

theorem stackMarker_eq (stack : Stack) : stackMarker stack = markerPrefix ++ stack.tail := by
  simp only [stackMarker, Stack.tail, String.append_assoc]

theorem landedMarker_eq (landed : Landed) : landedMarker landed = markerPrefix ++ landed.tail := by
  simp only [landedMarker, Landed.tail, String.append_assoc]

theorem Marker.text_eq (marker : Marker) : marker.text = markerPrefix ++ marker.tail := by
  cases marker with
  | own o => exact ownMarker_eq o
  | stack s => exact stackMarker_eq s
  | landed l => exact landedMarker_eq l

def Marker.initial : Marker → Char
  | own _ => 'o'
  | stack _ => 's'
  | landed _ => 'l'

theorem Marker.head?_tail (marker : Marker) : marker.tail.toList.head? = some marker.initial := by
  cases marker with
  | own o =>
    rw [tail, Own.tail, String.toList_append]
    rfl
  | stack s =>
    rw [tail, Stack.tail, String.toList_append]
    rfl
  | landed l =>
    rw [tail, Landed.tail, String.toList_append]
    rfl

theorem lt_not_mem_itoa (n : Int) : '<' ∉ (Text.itoa n).toList :=
  Text.not_mem_itoa (by decide) (by decide) n

theorem not_mem_members (h : ∀ member ∈ members, IsSHA member.sha) : '<' ∉ (Text.join "," (members.map memberText)).toList := by
  have hmember : ∀ member ∈ members, '<' ∉ (memberText member).toList := by
    intro member hmember
    rw [toList_memberText, List.mem_append, List.mem_cons]
    rintro (hnumber | hat | hsha)
    · exact lt_not_mem_itoa _ hnumber
    · exact absurd hat (by decide)
    · exact not_mem_of_isSHA (h member hmember) (by decide) hsha
  cases members with
  | nil => simp [Text.join]
  | cons first rest =>
    rw [List.map_cons, Text.toList_join, List.mem_append, List.mem_flatMap]
    rintro (hfirst | ⟨part, hpart, hmem⟩)
    · exact hmember first List.mem_cons_self hfirst
    · obtain ⟨member, hrest, rfl⟩ := List.mem_map.mp hpart
      rcases List.mem_append.mp hmem with hcomma | hmem
      · exact absurd hcomma (by decide)
      · exact hmember member (List.mem_cons_of_mem _ hrest) hmem

theorem Own.not_mem_tail {own : Own} (h : own.Valid) : '<' ∉ own.tail.toList := by
  simp only [Own.tail, String.toList_append, List.mem_append, not_or]
  exact ⟨by decide, not_mem_of_isSHA h.1 (by decide), by decide, not_mem_of_isSHA h.2 (by decide), by decide⟩

theorem Stack.not_mem_tail {stack : Stack} (h : stack.Valid) : '<' ∉ stack.tail.toList := by
  simp only [Stack.tail, String.toList_append, List.mem_append, not_or]
  exact ⟨by decide, not_mem_of_isSHA h.base (by decide), by decide, not_mem_members fun member hmember => (h.members member hmember).2.2,
    by decide, lt_not_mem_itoa _, by decide, lt_not_mem_itoa _, by decide⟩

theorem Landed.not_mem_tail {landed : Landed} (h : IsSHA landed.head) : '<' ∉ landed.tail.toList := by
  simp only [Landed.tail, String.toList_append, List.mem_append, not_or]
  exact ⟨by decide, not_mem_of_isSHA h (by decide), by decide⟩

theorem Marker.not_mem_tail {marker : Marker} (h : marker.Valid) : '<' ∉ marker.tail.toList := by
  cases marker with
  | own o => exact Own.not_mem_tail h
  | stack s => exact Stack.not_mem_tail h
  | landed l => exact Landed.not_mem_tail h

theorem Kind.skip {initial : Char} {name : List Char} {r : Regex} (h : Kind initial name r) {marker : Marker} (hvalid : marker.Valid)
    (hother : marker.initial ≠ initial) (markers : List Marker) : search r (lines (marker :: markers)) = search r (lines markers) := by
  refine search_lines_cons h.opens Kind.ne_nil h.newline' ?_ markers
  rw [marker.text_eq, String.toList_append]
  refine not_infix (marker.not_mem_tail hvalid) ?_
  rintro ⟨rest, hrest⟩
  have hhead := marker.head?_tail
  rw [← hrest, List.head?_append, h.head, Option.some_or, Option.some.injEq] at hhead
  exact hother hhead.symm

theorem Kind.hit {initial : Char} {name : List Char} {r : Regex} (h : Kind initial name r) {marker : Marker} {markers : List Marker}
    {captures : List (List Char)} (hfirst : First r marker.text.toList (lines markers) captures) :
    search r (lines (marker :: markers)) = some (captures, lines markers) :=
  search_lines_first h.opens Kind.ne_nil h.newline' hfirst

theorem first_sha {sha : String} (h : IsSHA sha) : First Pattern.sha sha.toList rest [] := by
  have hfirst : First (times (.char hexDigit) sha.toList.length) sha.toList rest [] := First.times h.2
  rwa [h.1] at hfirst

theorem first_number {n : Int} (h : 0 ≤ n) (hc : c.isDigit = false) :
    First Pattern.number (Text.itoa n).toList (c :: rest) [] :=
  First.plus (digits_itoa h).1 (digits_itoa h).2 (by simp [run, hc])

theorem first_entry {member : Member} (hnumber : 0 ≤ member.number) (hsha : IsSHA member.sha) :
    First Pattern.entry (memberText member).toList rest [] := by
  rw [toList_memberText]
  exact (first_number hnumber (by decide)).seq ((First.one '@').seq (first_sha hsha))

theorem first_members (hne : members ≠ []) (h : ∀ member ∈ members, 0 ≤ member.number ∧ IsSHA member.sha)
    (hc : c ≠ ',') :
    First (.seq Pattern.entry (.star (.seq (one ',') Pattern.entry))) (Text.join "," (members.map memberText)).toList (c :: rest) [] := by
  obtain ⟨first, others, rfl⟩ := List.exists_cons_of_ne_nil hne
  obtain ⟨hnumber, hsha⟩ := h first List.mem_cons_self
  rw [List.map_cons, Text.toList_join, List.flatMap_map, List.flatMap_def]
  refine (first_entry hnumber hsha).seq (First.star (fun word hword => ?_) ?_)
  · obtain ⟨member, hmember, rfl⟩ := List.mem_map.mp hword
    obtain ⟨hnumber', hsha'⟩ := h member (List.mem_cons_of_mem _ hmember)
    exact ⟨by simp, fun tail => (First.one ',').seq (first_entry hnumber' hsha')⟩
  · rw [run, run_one_eq_nil hc, List.flatMap_nil]

theorem first_own {own : Own} (h : own.Valid) :
    First Pattern.own (Marker.own own).text.toList rest [own.head.toList, own.upstream.toList] := by
  have htext : (Marker.own own).text.toList = "<!-- runneryard-merge-queue:own head=".toList ++
      (own.head.toList ++ (" upstream=".toList ++ (own.upstream.toList ++ " -->".toList))) := by
    have hstart : markerPrefix ++ "own head=" = "<!-- runneryard-merge-queue:own head=" := by decide
    rw [Marker.text, ownMarker_eq, Own.tail, ← String.append_assoc, hstart]
    simp only [String.toList_append]
  rw [htext]
  exact (First.literal _).seq ((first_sha h.1).group.seq ((First.literal _).seq ((first_sha h.2).group.seq (First.literal _))))

theorem first_landed {landed : Landed} (h : IsSHA landed.head) :
    First Pattern.landed (Marker.landed landed).text.toList rest [landed.head.toList] := by
  have htext : (Marker.landed landed).text.toList = "<!-- runneryard-merge-queue:landed head=".toList ++ (landed.head.toList ++ " -->".toList) := by
    have hstart : markerPrefix ++ "landed head=" = "<!-- runneryard-merge-queue:landed head=" := by decide
    rw [Marker.text, landedMarker_eq, Landed.tail, ← String.append_assoc, hstart]
    simp only [String.toList_append]
  rw [htext]
  exact (First.literal _).seq ((first_sha h).group.seq (First.literal _))

theorem first_stack {stack : Stack} (h : stack.Valid) :
    First Pattern.stack (Marker.stack stack).text.toList rest [stack.base.toList, (Text.join "," (stack.members.map memberText)).toList,
      (Text.itoa stack.retry).toList, (Text.itoa (unix stack.atTime)).toList] := by
  have htext : (Marker.stack stack).text.toList = "<!-- runneryard-merge-queue:stack base=".toList ++ (stack.base.toList ++ (" prs=".toList ++
      ((Text.join "," (stack.members.map memberText)).toList ++ (" retry=".toList ++ ((Text.itoa stack.retry).toList ++ (" at=".toList ++
        ((Text.itoa (unix stack.atTime)).toList ++ " -->".toList))))))) := by
    have hstart : markerPrefix ++ "stack base=" = "<!-- runneryard-merge-queue:stack base=" := by decide
    rw [Marker.text, stackMarker_eq, Stack.tail, ← String.append_assoc, hstart]
    simp only [String.toList_append]
  have hretry : ∀ {rest}, First Pattern.retry (Text.itoa stack.retry).toList rest [] := by
    intro rest
    rcases h.retry with hretry | hretry <;> rw [hretry] <;> exact First.char (by decide)
  have hmembers : ∀ {rest}, First (.seq Pattern.entry (.star (.seq (one ',') Pattern.entry)))
      (Text.join "," (stack.members.map memberText)).toList (" retry=".toList ++ rest) [] :=
    first_members h.nonempty (fun member hmember => ⟨(h.members member hmember).1.le, (h.members member hmember).2.2⟩) (by decide)
  have hatTime : First Pattern.number (Text.itoa (unix stack.atTime)).toList (" -->".toList ++ rest) [] :=
    first_number (c := ' ') h.atTime.1 (by decide)
  rw [htext]
  refine (First.literal _).seq ((first_sha h.base).group.seq ((First.literal _).seq ((?_ : First _ _ _ [_]).seq ((First.literal _).seq
    (hretry.group.seq ((First.literal _).seq (hatTime.group.seq (First.literal _))))))))
  rw [List.append_assoc]
  exact hmembers.group

/-! ### Parsing what was printed -/

theorem parseMember_memberText {member : Member} {seen : List Int} (hpos : 0 < member.number) (hfits : Text.FitsInt64 member.number)
    (hseen : member.number ∉ seen) : parseMember seen (memberText member) = some member := by
  have hcut : Text.cut '@' (memberText member) = some (Text.itoa member.number, member.sha) :=
    Text.cut_append (Text.not_mem_itoa (by decide) (by decide) _) member.sha
  have hok : ¬(decide (member.number ≤ 0) || decide (member.number ∈ seen)) = true := by
    simp only [Bool.or_eq_true, decide_eq_true_eq, not_or, not_le]
    exact ⟨hpos, hseen⟩
  unfold parseMember
  dsimp only
  rw [hcut, Option.getD_some, Text.atoi_itoa hfits, Option.bind_some, if_neg hok]

theorem parseMembers_memberText {seen : List Int}
    (h : ∀ member ∈ members, 0 < member.number ∧ Text.FitsInt64 member.number ∧ IsSHA member.sha) (hdistinct : (members.map Member.number).Nodup)
    (hseen : ∀ member ∈ members, member.number ∉ seen) : parseMembers seen (members.map memberText) = some members := by
  induction members generalizing seen with
  | nil => rfl
  | cons member members ih =>
    obtain ⟨hpos, hfits, -⟩ := h member List.mem_cons_self
    obtain ⟨hfirst, hrest⟩ := List.nodup_cons.mp hdistinct
    have hmember := parseMember_memberText hpos hfits (hseen member List.mem_cons_self)
    rw [List.map_cons, parseMembers, hmember, Option.bind_some, ih (fun other hother => h other (List.mem_cons_of_mem _ hother)) hrest,
      Option.map_some]
    intro other hother
    rw [List.mem_cons, not_or]
    exact ⟨fun heq => hfirst (List.mem_map.mpr ⟨other, hother, heq⟩), hseen other (List.mem_cons_of_mem _ hother)⟩

theorem split_members (hne : members ≠ []) (h : ∀ member ∈ members, IsSHA member.sha) :
    Text.split ',' (Text.join "," (members.map memberText)) = members.map memberText := by
  refine Text.split_intercalate (fun field hfield => ?_) (by simpa using hne)
  obtain ⟨member, hmember, rfl⟩ := List.mem_map.mp hfield
  rw [toList_memberText, List.mem_append, List.mem_cons]
  rintro (hnumber | hat | hsha)
  · exact Text.not_mem_itoa (by decide) (by decide) _ hnumber
  · exact absurd hat (by decide)
  · exact not_mem_of_isSHA (h member hmember) (by decide) hsha

section Parse

variable {text : String} {markers : List Marker}

theorem searchAll_own (hmarkers : ∀ marker ∈ markers, marker.Valid) (n : Nat) : searchAll Pattern.own n (lines markers) =
    ((markers.filterMap Marker.own?).take n).map fun own => [own.head.toList, own.upstream.toList] := by
  induction markers generalizing n with
  | nil =>
    cases n with
    | zero => rfl
    | succ n =>
      have hnone : search Pattern.own (lines []) = none := by decide
      rw [searchAll, hnone]
      rfl
  | cons marker markers ih =>
    have hrest := ih fun other hother => hmarkers other (List.mem_cons_of_mem _ hother)
    have hvalid := hmarkers marker List.mem_cons_self
    cases marker with
    | own o =>
      cases n with
      | zero => rfl
      | succ n =>
        rw [searchAll, kind_own.hit (first_own hvalid)]
        dsimp only
        rw [hrest]
        rfl
    | stack s => exact (searchAll_congr (kind_own.skip hvalid (by simp [Marker.initial]) markers) n).trans (hrest n)
    | landed l => exact (searchAll_congr (kind_own.skip hvalid (by simp [Marker.initial]) markers) n).trans (hrest n)

theorem parseOwns_statusBody (htext : Unmarked text) (hmarkers : ∀ marker ∈ markers, marker.Valid) :
    parseOwns (statusBody text (markers.map Marker.text)) = (markers.filterMap Marker.own?).take maxOwns := by
  have hall := (searchAll_congr (kind_own.search_body (by simp [patterns]) htext markers) maxOwns).trans (searchAll_own hmarkers maxOwns)
  rw [parseOwns, findAll, hall, List.map_map, List.filterMap_map]
  simp [Function.comp_def]

theorem parseLanded_statusBody (htext : Unmarked text) (hmarkers : ∀ marker ∈ markers, marker.Valid) :
    parseLanded (statusBody text (markers.map Marker.text)) = (markers.filterMap Marker.landed?).head? := by
  rw [parseLanded, find, kind_landed.search_body (by simp [patterns]) htext]
  induction markers with
  | nil => rfl
  | cons marker markers ih =>
    have hrest := ih fun other hother => hmarkers other (List.mem_cons_of_mem _ hother)
    have hvalid := hmarkers marker List.mem_cons_self
    cases marker with
    | own o =>
      rw [kind_landed.skip hvalid (by simp [Marker.initial]), hrest]
      rfl
    | stack s =>
      rw [kind_landed.skip hvalid (by simp [Marker.initial]), hrest]
      rfl
    | landed l =>
      rw [kind_landed.hit (first_landed hvalid)]
      simp [Marker.landed?]

theorem parseStack_statusBody (htext : Unmarked text) (hmarkers : ∀ marker ∈ markers, marker.Valid) :
    parseStack (statusBody text (markers.map Marker.text)) = (markers.filterMap Marker.stack?).head?.map Stack.seconds := by
  rw [parseStack, find, kind_stack.search_body (by simp [patterns]) htext]
  induction markers with
  | nil => rfl
  | cons marker markers ih =>
    have hrest := ih fun other hother => hmarkers other (List.mem_cons_of_mem _ hother)
    have hvalid := hmarkers marker List.mem_cons_self
    cases marker with
    | own o =>
      rw [kind_stack.skip hvalid (by simp [Marker.initial]), hrest]
      rfl
    | landed l =>
      rw [kind_stack.skip hvalid (by simp [Marker.initial]), hrest]
      rfl
    | stack s =>
      have hretry : (if Text.itoa s.retry = "1" then (1 : Int) else 0) = s.retry := by
        rcases hvalid.retry with hretry | hretry <;> rw [hretry] <;> decide
      rw [kind_stack.hit (first_stack hvalid)]
      simp only [Option.map_some, List.map_cons, List.map_nil, String.ofList_toList,
        split_members hvalid.nonempty fun member hmember => (hvalid.members member hmember).2.2,
        parseMembers_memberText hvalid.members hvalid.distinct (fun _ _ => List.not_mem_nil), Option.bind_some,
        Text.parseInt_itoa hvalid.atTime.2, hretry]
      rfl

end Parse

/-! ### Plain texts -/

theorem plain_of_not_mem {s : String} (h : '<' ∉ s.toList) : Plain s := fun hoccurs => h (hoccurs.subset (by decide))

theorem plain_append (ha : '<' ∉ a.toList) (hb : Plain b) : Plain (a ++ b) := by
  unfold Plain at *
  rw [String.toList_append]
  exact fun hoccurs => hb (isInfix_of_head_not_mem (x := '<') ha hoccurs)

theorem plain_append_head (ha : Plain a) (hb : Plain b) (hc : c ∉ markerPrefix.toList) (hhead : b.toList.head? = some c) :
    Plain (a ++ b) := by
  unfold Plain at *
  obtain ⟨rest, hrest⟩ := List.head?_eq_some_iff.mp hhead
  rw [String.toList_append, hrest]
  intro hoccurs
  rcases isInfix_append_cons hc hoccurs with hleft | hright
  · exact ha hleft
  · exact hb (hrest ▸ hright.trans (List.suffix_cons c rest).isInfix)

theorem head?_append_literal (h : a.toList.head? = some c) : (a ++ b).toList.head? = some c := by
  rw [String.toList_append, List.head?_append, h, Option.some_or]

theorem not_mem_shortSHA {sha : String} (h : IsSHA sha) : '<' ∉ (shortSHA sha).toList := by
  have hsha := not_mem_of_isSHA h (c := '<') (by decide)
  unfold shortSHA
  split
  · rw [String.toList_ofList]
    exact fun hmem => hsha (List.mem_of_mem_take hmem)
  · exact hsha

theorem not_mem_refs (numbers : List Int) : '<' ∉ (refs numbers).toList := by
  have hnumber : ∀ number : Int, '<' ∉ ("#" ++ Text.itoa number).toList := by
    intro number
    rw [String.toList_append, List.mem_append, not_or]
    exact ⟨by decide, lt_not_mem_itoa number⟩
  cases numbers with
  | nil => simp [refs, Text.join]
  | cons first rest =>
    rw [refs, List.map_cons, Text.toList_join, List.mem_append, List.mem_flatMap]
    rintro (hfirst | ⟨part, hpart, hmem⟩)
    · exact hnumber first hfirst
    · obtain ⟨number, -, rfl⟩ := List.mem_map.mp hpart
      rcases List.mem_append.mp hmem with hcomma | hmem
      · exact absurd hcomma (by decide)
      · exact hnumber number hmem

theorem plain_join {sep : String} (hsep : sep.toList = c :: rest) (hc : c ∉ markerPrefix.toList) (hrest : '<' ∉ rest)
    {parts : List String} (h : ∀ part ∈ parts, Plain part) : Plain (Text.join sep parts) := by
  cases parts with
  | nil => exact plain_of_not_mem (by simp [Text.join])
  | cons first parts =>
    unfold Plain
    rw [Text.toList_join, hsep]
    induction parts generalizing first with
    | nil =>
      rw [List.flatMap_nil, List.append_nil]
      exact h first List.mem_cons_self
    | cons next parts ih =>
      intro hoccurs
      rw [List.flatMap_cons, List.cons_append, List.cons_append, List.append_assoc] at hoccurs
      rcases isInfix_append_cons hc hoccurs with hleft | hright
      · exact h first List.mem_cons_self hleft
      · exact ih next (fun part hpart => h part (List.mem_cons_of_mem _ hpart)) (isInfix_of_head_not_mem (x := '<') hrest hright)

/-! ### The comments of the queue -/

/-- What the queue writes, in the arguments of the builders. -/
inductive StatusComment where
  | waiting (position total : Int) (owns : List Own)
  | ineligible (reason label : String) (owns : List Own)
  | member (stack : Stack) (index : Nat) (keep : List Own)
  | landed (stack : Stack) (index : Nat)
  | rejected (reason label : String) (urls : List String) (owns : List Own)
  | requeued (reason : String) (owns : List Own)

namespace StatusComment

def body : StatusComment → String
  | waiting position total owns => waitingComment position total owns
  | ineligible reason label owns => ineligibleComment reason label owns
  | member stack index keep => stackComment stack index keep
  | landed stack index => landedComment stack index
  | rejected reason label urls owns => rejectedComment reason label urls owns
  | requeued reason owns => requeuedComment reason owns

def Valid : StatusComment → Prop
  | waiting _ _ owns => ∀ own ∈ owns, own.Valid
  | ineligible reason label owns => Plain reason ∧ Plain label ∧ ∀ own ∈ owns, own.Valid
  | member stack index keep => stack.Valid ∧ index < stack.members.length ∧ ∀ own ∈ keep, own.Valid
  | landed stack index => stack.Valid ∧ index < stack.members.length
  | rejected reason label urls owns => Plain reason ∧ Plain label ∧ (∀ url ∈ urls, Plain url) ∧ ∀ own ∈ owns, own.Valid
  | requeued reason owns => Plain reason ∧ ∀ own ∈ owns, own.Valid

def stack? : StatusComment → Option Stack
  | member stack index _ => if index + 1 = stack.members.length then some stack else none
  | _ => none

def owns : StatusComment → List Own
  | waiting _ _ owns | ineligible _ _ owns | rejected _ _ _ owns | requeued _ owns => owns
  | member stack index keep => stackOwn stack index :: keep
  | landed _ _ => []

def landed? : StatusComment → Option Landed
  | landed stack index => some { head := (stack.members.getD index default).sha }
  | _ => none

def markers (comment : StatusComment) : List Marker :=
  (comment.owns.take maxOwns).map .own ++ comment.stack?.toList.map .stack ++ comment.landed?.toList.map .landed

theorem valid_sha {stack : Stack} (h : stack.Valid) {index : Nat} (hindex : index < stack.members.length) :
    IsSHA (stack.members.getD index default).sha := by
  rw [← List.getElem_eq_getD (h := hindex)]
  exact (h.members _ (List.getElem_mem hindex)).2.2

theorem valid_stackOwn {stack : Stack} (h : stack.Valid) {index : Nat} (hindex : index < stack.members.length) : (stackOwn stack index).Valid := by
  refine ⟨valid_sha h hindex, ?_⟩
  unfold stackOwn
  dsimp only
  split
  · exact valid_sha h (by omega)
  · exact h.base

variable {comment : StatusComment}

theorem valid_owns (h : comment.Valid) : ∀ own ∈ comment.owns, own.Valid := by
  cases comment with
  | waiting position total owns => exact h
  | ineligible reason label owns => exact h.2.2
  | member stack index keep =>
    intro own hown
    rcases List.mem_cons.mp hown with rfl | hkeep
    · exact valid_stackOwn h.1 h.2.1
    · exact h.2.2 own hkeep
  | landed stack index => exact fun own hown => absurd hown List.not_mem_nil
  | rejected reason label urls owns => exact h.2.2.2
  | requeued reason owns => exact h.2

theorem valid_markers (h : comment.Valid) : ∀ marker ∈ comment.markers, marker.Valid := by
  intro marker hmarker
  simp only [markers, List.mem_append, List.mem_map, Option.mem_toList] at hmarker
  rcases hmarker with (⟨own, hown, rfl⟩ | ⟨stack, hstack, rfl⟩) | ⟨landed, hlanded, rfl⟩
  · exact valid_owns h own (List.mem_of_mem_take hown)
  · cases comment with
    | member stack' index keep =>
      simp only [stack?] at hstack
      split at hstack
      · rw [Option.some.injEq] at hstack
        exact hstack ▸ h.1
      · cases hstack
    | _ => cases hstack
  · cases comment with
    | landed stack index =>
      simp only [landed?, Option.some.injEq] at hlanded
      rw [← hlanded]
      exact valid_sha h.1 h.2
    | _ => cases hlanded

theorem map_text_markers (comment : StatusComment) : comment.markers.map Marker.text =
    ownMarkers comment.owns ++ comment.stack?.toList.map stackMarker ++ comment.landed?.toList.map landedMarker := by
  simp only [markers, List.map_append, List.map_map, ownMarkers]
  rfl

theorem not_mem_mates (with_ : String) (h : '<' ∉ with_.toList) (numbers : List Int) :
    '<' ∉ (if numbers = [] then "" else with_ ++ refs numbers).toList := by
  split
  · simp
  · rw [String.toList_append, List.mem_append, not_or]
    exact ⟨h, not_mem_refs numbers⟩

theorem plain_waiting (position total : Int) :
    Plain ("position " ++ Text.itoa position ++ " of " ++ Text.itoa total ++ ", waiting for the stack ahead to resolve.") := by
  apply plain_of_not_mem
  simp only [String.toList_append, List.mem_append, not_or]
  exact ⟨⟨⟨⟨by decide, lt_not_mem_itoa _⟩, by decide⟩, lt_not_mem_itoa _⟩, by decide⟩

theorem body_eq (h : comment.Valid) : ∃ text, Plain text ∧ comment.body = statusBody text (comment.markers.map Marker.text) := by
  rw [map_text_markers]
  cases comment with
  | waiting position total owns =>
    exact ⟨_, plain_waiting position total, congrArg (statusBody _) (by simp [stack?, landed?, StatusComment.owns])⟩
  | ineligible reason label owns =>
    obtain ⟨hreason, hlabel, -⟩ := h
    refine ⟨_, ?_, congrArg (statusBody _) (by simp [stack?, landed?, StatusComment.owns])⟩
    simp only [String.append_assoc]
    refine plain_append (by decide) (plain_append_head (c := '.') hreason ?_ (by decide) (head?_append_literal (by decide)))
    exact plain_append (by decide) (plain_append_head (c := '`') hlabel (plain_of_not_mem (by decide)) (by decide) (by decide))
  | member stack index keep =>
    obtain ⟨hstack, hindex, -⟩ := h
    have hsha := not_mem_shortSHA (valid_sha hstack hindex)
    have hbase := not_mem_shortSHA hstack.base
    have hmates := not_mem_mates " with " (by decide)
    simp only [body, stackComment, stack?, landed?, StatusComment.owns]
    split
    · refine ⟨_, ?_, congrArg (statusBody _) (by simp)⟩
      refine plain_of_not_mem ?_
      split
      · simp only [String.toList_append, List.mem_append, not_or]
        exact ⟨⟨⟨⟨by decide, hmates _⟩, by decide⟩, hsha⟩, by decide⟩
      · simp only [String.toList_append, List.mem_append, not_or]
        exact ⟨⟨⟨⟨⟨⟨by decide, hmates _⟩, by decide⟩, hbase⟩, by decide⟩, hsha⟩, by decide⟩
    · refine ⟨_, plain_of_not_mem ?_, congrArg (statusBody _) (by simp)⟩
      simp only [String.toList_append, List.mem_append, not_or]
      exact ⟨⟨⟨⟨by decide, hmates _⟩, by decide⟩, hsha⟩, by decide⟩
  | landed stack index =>
    obtain ⟨hstack, hindex⟩ := h
    have htop : IsSHA stack.top.sha := by
      rw [Stack.top, List.getLast?_eq_getLast_of_ne_nil hstack.nonempty, Option.getD_some]
      exact (hstack.members _ (List.getLast_mem hstack.nonempty)).2.2
    refine ⟨_, plain_of_not_mem ?_, congrArg (statusBody _) (by simp [stack?, landed?, StatusComment.owns, ownMarkers])⟩
    simp only [String.toList_append, List.mem_append, not_or]
    exact ⟨⟨⟨by decide, not_mem_shortSHA htop⟩, not_mem_mates _ (by decide) _⟩, by decide⟩
  | rejected reason label urls owns =>
    obtain ⟨hreason, hlabel, hurls, -⟩ := h
    have htext : ∀ rest : String, Plain rest → (rest = "" ∨ rest.toList.head? = some '\n') →
        Plain ("rejected (" ++ reason ++ "). Re-apply the `" ++ label ++ "` label once this is fixed." ++ rest) := by
      intro rest hrest hhead
      simp only [String.append_assoc]
      refine plain_append (by decide) (plain_append_head (c := ')') hreason ?_ (by decide) (head?_append_literal (by decide)))
      exact plain_append (by decide) (plain_append_head (c := '`') hlabel (plain_append (by decide) hrest) (by decide)
        (head?_append_literal (by decide)))
    refine ⟨_, ?_, congrArg (statusBody _) (by simp [stack?, landed?, StatusComment.owns])⟩
    split
    · have hplain := htext "" (plain_of_not_mem (by simp)) (Or.inl rfl)
      rwa [String.append_empty] at hplain
    · rw [String.append_assoc]
      exact htext _ (plain_append (by decide) (plain_join rfl (by decide) (by decide) hurls)) (Or.inr (head?_append_literal (by decide)))
  | requeued reason owns =>
    refine ⟨_, ?_, congrArg (statusBody _) (by simp [stack?, landed?, StatusComment.owns])⟩
    simp only [String.append_assoc]
    exact plain_append (by decide) (plain_append_head (c := ')') h.1 (plain_of_not_mem (by decide)) (by decide) (by decide))

theorem filterMap_markers (comment : StatusComment) : comment.markers.filterMap Marker.own? = comment.owns.take maxOwns ∧
    comment.markers.filterMap Marker.stack? = comment.stack?.toList ∧ comment.markers.filterMap Marker.landed? = comment.landed?.toList := by
  simp only [markers, List.filterMap_append, List.filterMap_map]
  simp [Function.comp_def, Marker.own?, Marker.stack?, Marker.landed?]

theorem parse_body (h : comment.Valid) : parseStack comment.body = comment.stack?.map Stack.seconds ∧
    parseOwns comment.body = comment.owns.take maxOwns ∧ parseLanded comment.body = comment.landed? := by
  obtain ⟨text, hplain, hbody⟩ := body_eq h
  have htext := unmarked_of_plain hplain
  obtain ⟨howns, hstack, hlanded⟩ := comment.filterMap_markers
  have hmarkers := valid_markers h
  refine ⟨?_, ?_, ?_⟩
  · rw [hbody, parseStack_statusBody htext hmarkers, hstack, Option.head?_toList]
  · rw [hbody, parseOwns_statusBody htext hmarkers, howns, List.take_take, Nat.min_self]
  · rw [hbody, parseLanded_statusBody htext hmarkers, hlanded, Option.head?_toList]

end StatusComment

/-- Every status comment is read back: its stack, its landed head, its first two own records, and nothing else. -/
theorem status_comment_round_trips {comment : StatusComment} (h : comment.Valid)
    (hseconds : ∀ stack ∈ comment.stack?, stack.atTime = ofUnix (unix stack.atTime)) : parseStack comment.body = comment.stack? ∧
      parseOwns comment.body = comment.owns.take 2 ∧ parseLanded comment.body = comment.landed? := by
  obtain ⟨hstack, howns, hlanded⟩ := StatusComment.parse_body h
  refine ⟨hstack.trans ?_, howns, hlanded⟩
  cases hmarker : comment.stack? with
  | none => rfl
  | some stack => rw [Option.map_some, Stack.seconds, ← hseconds stack hmarker]

namespace Demo

def sha (c : Char) : String := String.ofList (List.replicate 40 c)

theorem isSHA_sha {c : Char} (h : hexDigit c = true) : IsSHA (sha c) := by
  unfold IsSHA sha
  rw [String.toList_ofList]
  exact ⟨List.length_replicate, fun d hd => List.eq_of_mem_replicate hd ▸ h⟩

def stack : Stack :=
  { base := sha 'b', members := [{ number := 7, sha := sha '1' }, { number := 12, sha := sha '2' }], retry := 1, atTime := ofUnix 1760184000 }

def top : StatusComment := .member stack 1 [{ head := sha 'a', upstream := sha 'b' }]

end Demo

/-- The top of a retried stack of two. -/
theorem status_comment_round_trips_at_top :
    parseStack Demo.top.body = some Demo.stack ∧
      parseOwns Demo.top.body = [{ head := Demo.sha '2', upstream := Demo.sha '1' }, { head := Demo.sha 'a', upstream := Demo.sha 'b' }] ∧
      parseLanded Demo.top.body = none := by
  have hsha : ∀ {c}, hexDigit c = true → IsSHA (Demo.sha c) := Demo.isSHA_sha
  have hmembers : ∀ member ∈ Demo.stack.members, 0 < member.number ∧ Text.FitsInt64 member.number ∧ IsSHA member.sha := by
    intro member hmember
    simp only [Demo.stack, List.mem_cons, List.not_mem_nil, or_false] at hmember
    rcases hmember with rfl | rfl
    · exact ⟨by decide, by decide, hsha (by decide)⟩
    · exact ⟨by decide, by decide, hsha (by decide)⟩
  have hvalid : Demo.top.Valid := by
    refine ⟨⟨hsha (by decide), by decide, hmembers, by decide, by decide, by decide⟩, by decide, fun own hown => ?_⟩
    rw [List.mem_singleton.mp hown]
    exact ⟨hsha (by decide), hsha (by decide)⟩
  have hstack : Demo.top.stack? = some Demo.stack := by decide
  obtain ⟨hparsed, howns, hlanded⟩ := status_comment_round_trips hvalid (by rw [hstack]; decide)
  exact ⟨hparsed.trans hstack, howns.trans (by decide), hlanded.trans (by decide)⟩

end MergeQueue

end RunnerYard
