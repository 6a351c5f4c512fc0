import Mathlib.Data.List.TakeDrop
import Mathlib.Algebra.Ring.Int.Defs

/-!
# Decimal numbers and separated text

`strconv.Itoa` and `strconv.Atoi` for 64-bit integers, and `strings.Split` and `strings.Cut` at a single character. What is written is read back: a number from its digits, and a list of fields from the text that joins them, as long as no field holds the separator.
-/

namespace RunnerYard

def hexDigit (c : Char) : Bool := ('0' ≤ c && c ≤ '9') || ('a' ≤ c && c ≤ 'f')

namespace Text

def maxInt64 : Int := 2 ^ 63 - 1

def minInt64 : Int := -2 ^ 63

/-- The values of Go's `int` and `int64`. -/
def FitsInt64 (n : Int) : Prop := minInt64 ≤ n ∧ n ≤ maxInt64

instance (n : Int) : Decidable (FitsInt64 n) := inferInstanceAs (Decidable (_ ∧ _))

/-- `strconv.Itoa` and `strconv.FormatInt` in base 10. -/
def itoa : Int → String
  | .ofNat n => n.repr
  | .negSucc n => "-" ++ (n + 1).repr

def digits (chars : List Char) : Option Nat :=
  if chars ≠ [] ∧ chars.all Char.isDigit then some (Nat.ofDigitChars 10 chars 0) else none

/-- The sign and the magnitude that a decimal literal stands for. -/
def literal (s : String) : Option Int :=
  match s.toList with
  | '-' :: rest => (digits rest).map fun n : Nat => -Int.ofNat n
  | '+' :: rest => (digits rest).map Int.ofNat
  | chars => (digits chars).map Int.ofNat

/-- `strconv.ParseInt` in base 10 with 64 bits: the value, and whether there was no error. A literal out of range gives the nearest value with an error, and anything else `0`. -/
def parseInt (s : String) : Int × Bool :=
  match literal s with
  | none => (0, false)
  | some n => if n < minInt64 then (minInt64, false) else if maxInt64 < n then (maxInt64, false) else (n, true)

/-- `strconv.Atoi` where `int` has 64 bits. -/
def atoi (s : String) : Option Int :=
  let (n, ok) := parseInt s
  if ok then some n else none

/-- `%q` of a text without quotes, backslashes and control characters. -/
def quote (s : String) : String := "\"" ++ s ++ "\""

/-- `strings.Split` at one character. -/
def split (separator : Char) (s : String) : List String := (s.toList.splitOn separator).map String.ofList

def join (separator : String) (parts : List String) : String := String.ofList (separator.toList.intercalate (parts.map String.toList))

/-- `strings.Cut` at one character. -/
def cut (separator : Char) (s : String) : Option (String × String) :=
  match s.toList.span (· ≠ separator) with
  | (_, []) => none
  | (before, _ :: after) => some (String.ofList before, String.ofList after)

/-- `^[first][rest]{0,limit}$` for two classes of characters. -/
def startsThen (first rest : Char → Bool) (limit : Nat) (s : String) : Bool :=
  match s.toList with
  | [] => false
  | c :: tail => first c && tail.all rest && tail.length ≤ limit

/-- Cut at the last occurrence: the text before `strings.LastIndex` and the text behind it. -/
def cutLast (separator : Char) (s : String) : Option (String × String) :=
  match s.toList.reverse.span (· ≠ separator) with
  | (_, []) => none
  | (after, _ :: before) => some (String.ofList before.reverse, String.ofList after.reverse)

theorem digits_toDigits (n : Nat) : digits (Nat.toDigits 10 n) = some n := by
  have hall : (Nat.toDigits 10 n).all Char.isDigit = true := by
    rw [List.all_eq_true]
    exact fun c hc => Nat.isDigit_of_mem_toDigits (by decide) (by decide) hc
  rw [digits, if_pos ⟨Nat.toDigits_ne_nil, hall⟩, Nat.ofDigitChars_ten_toDigits]

theorem literal_repr (n : Nat) : literal n.repr = some (n : Int) := by
  have hfirst : ∀ c rest, Nat.toDigits 10 n = c :: rest → c ≠ '-' ∧ c ≠ '+' := by
    intro c rest hcons
    have hdigit : c.isDigit = true := Nat.isDigit_of_mem_toDigits (by decide) (by decide) (hcons ▸ List.mem_cons_self)
    constructor
    · rintro rfl
      exact absurd hdigit (by decide)
    · rintro rfl
      exact absurd hdigit (by decide)
  unfold literal
  rw [Nat.toList_repr]
  split
  · rename_i rest hcons
    exact absurd rfl (hfirst _ _ hcons).1
  · rename_i rest hcons
    exact absurd rfl (hfirst _ _ hcons).2
  · rw [digits_toDigits, Option.map_some]
    rfl

theorem literal_itoa (n : Int) : literal (itoa n) = some n := by
  cases n with
  | ofNat n => exact literal_repr n
  | negSucc n =>
    have hchars : (itoa (.negSucc n)).toList = '-' :: Nat.toDigits 10 (n + 1) := by
      rw [itoa, String.toList_append, Nat.toList_repr]
      rfl
    unfold literal
    rw [hchars]
    simp only [digits_toDigits, Option.map_some]
    rfl

theorem parseInt_itoa {n : Int} (h : FitsInt64 n) : parseInt (itoa n) = (n, true) := by
  obtain ⟨hmin, hmax⟩ := h
  rw [parseInt, literal_itoa]
  simp only
  rw [if_neg (by omega), if_neg (by omega)]

theorem atoi_itoa {n : Int} (h : FitsInt64 n) : atoi (itoa n) = some n := by
  rw [atoi, parseInt_itoa h]
  rfl

theorem not_mem_toDigits {c : Char} (hdigit : c.isDigit = false) (n : Nat) : c ∉ Nat.toDigits 10 n := by
  intro hmem
  have := Nat.isDigit_of_mem_toDigits (by decide) (by decide) hmem
  rw [hdigit] at this
  exact absurd this (by decide)

theorem not_mem_itoa {c : Char} (hdigit : c.isDigit = false) (hminus : c ≠ '-') (n : Int) : c ∉ (itoa n).toList := by
  cases n with
  | ofNat n =>
    rw [itoa, Nat.toList_repr]
    exact not_mem_toDigits hdigit n
  | negSucc n =>
    rw [itoa, String.toList_append, Nat.toList_repr]
    intro hmem
    rcases List.mem_append.mp hmem with hmem | hmem
    · exact hminus (by simpa using hmem)
    · exact not_mem_toDigits hdigit _ hmem

theorem itoa_hyphen_inj {m n : Nat} {a b : List Char} (h : (itoa m).toList ++ '-' :: a = (itoa n).toList ++ '-' :: b) : m = n ∧ a = b := by
  have hspan : ∀ (k : Nat) (rest : List Char), ((itoa k).toList ++ '-' :: rest).span (· ≠ '-') = ((itoa k).toList, '-' :: rest) := by
    intro k rest
    have hall : ∀ c ∈ (itoa k).toList, decide (c ≠ '-') = true := by
      intro c hc
      rw [show itoa k = k.repr from rfl, Nat.toList_repr] at hc
      exact decide_eq_true fun heq => not_mem_toDigits (by decide) k (heq ▸ hc)
    rw [List.span_eq_takeWhile_dropWhile, List.takeWhile_append_of_pos hall, List.dropWhile_append_of_pos hall]
    simp
  have hparts := congrArg (List.span (· ≠ '-')) h
  rw [hspan, hspan, Prod.mk.injEq, String.toList_inj] at hparts
  have hliteral := congrArg literal hparts.1
  rw [literal_itoa, literal_itoa, Option.some.injEq] at hliteral
  exact ⟨Int.ofNat.inj hliteral, List.tail_eq_of_cons_eq hparts.2⟩

theorem split_intercalate {fields : List String} (hfields : ∀ field ∈ fields, separator ∉ field.toList) (hne : fields ≠ []) :
    split separator (String.ofList ([separator].intercalate (fields.map String.toList))) = fields := by
  have hparts : ∀ part ∈ fields.map String.toList, separator ∉ part := by
    intro part hpart
    obtain ⟨field, hmem, rfl⟩ := List.mem_map.mp hpart
    exact hfields field hmem
  rw [split, String.toList_ofList, List.splitOn_intercalate separator hparts (by simpa using hne), List.map_map]
  simp

theorem toList_join (separator : String) (first : String) (rest : List String) :
    (join separator (first :: rest)).toList = first.toList ++ rest.flatMap fun part => separator.toList ++ part.toList := by
  rw [join, String.toList_ofList, List.map_cons]
  induction rest generalizing first with
  | nil => simp
  | cons next rest ih =>
    rw [List.map_cons, List.intercalate_cons_cons, ih next]
    simp

theorem cut_append {before : String} (hbefore : separator ∉ before.toList) (after : String) :
    cut separator (before ++ String.singleton separator ++ after) = some (before, after) := by
  have hspan : (before.toList ++ separator :: after.toList).span (· ≠ separator) = (before.toList, separator :: after.toList) := by
    rw [List.span_eq_takeWhile_dropWhile]
    have hall : ∀ c ∈ before.toList, decide (c ≠ separator) = true := fun c hc =>
      decide_eq_true fun heq => hbefore (heq ▸ hc)
    rw [List.takeWhile_append_of_pos hall, List.dropWhile_append_of_pos hall]
    simp
  have hchars : (before ++ String.singleton separator ++ after).toList = before.toList ++ separator :: after.toList := by
    simp
  rw [cut, hchars, hspan]
  simp

theorem span_separator (separator : Char) (l : List Char) :
    (l.span (· ≠ separator) = (l, []) ∧ separator ∉ l) ∨
      ∃ before after, l.span (· ≠ separator) = (before, separator :: after) ∧ l = before ++ separator :: after ∧ separator ∉ before := by
  simp only [List.span_eq_takeWhile_dropWhile]
  induction l with
  | nil => simp
  | cons c l ih =>
    by_cases hc : c = separator
    · exact Or.inr ⟨[], l, by simp [hc], by simp [hc], by simp⟩
    · rcases ih with ⟨hspan, hnot⟩ | ⟨before, after, hspan, hl, hnot⟩
      · exact Or.inl ⟨by simpa [hc] using hspan, by simp [hnot, Ne.symm hc]⟩
      · exact Or.inr ⟨c :: before, after, by simpa [hc] using hspan, by simp [hl], by simp [hnot, Ne.symm hc]⟩

theorem cut_eq_some {s before after : String} (h : cut separator s = some (before, after)) :
    s.toList = before.toList ++ separator :: after.toList ∧ separator ∉ before.toList := by
  unfold cut at h
  rcases span_separator separator s.toList with ⟨hspan, -⟩ | ⟨a, b, hspan, hs, hnot⟩
  · rw [hspan] at h
    simp at h
  · rw [hspan] at h
    simp only [Option.some.injEq, Prod.mk.injEq] at h
    simp [← h.1, ← h.2, hs, hnot]

theorem cut_eq_none {s : String} : cut separator s = none ↔ separator ∉ s.toList := by
  unfold cut
  rcases span_separator separator s.toList with ⟨hspan, hnot⟩ | ⟨a, b, hspan, hs, -⟩
  · simp only [hspan, hnot, not_false_eq_true]
  · rw [hspan]
    simp [hs]

theorem cutLast_eq_some {s before after : String} (h : cutLast separator s = some (before, after)) :
    s.toList = before.toList ++ separator :: after.toList ∧ separator ∉ after.toList := by
  unfold cutLast at h
  rcases span_separator separator s.toList.reverse with ⟨hspan, -⟩ | ⟨a, b, hspan, hs, hnot⟩
  · rw [hspan] at h
    simp at h
  · rw [hspan] at h
    simp only [Option.some.injEq, Prod.mk.injEq] at h
    rw [List.reverse_eq_iff] at hs
    simp [← h.1, ← h.2, hs, hnot]

end Text

end RunnerYard
