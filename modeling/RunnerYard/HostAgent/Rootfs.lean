import RunnerYard.Base.Text

/-!
# The environment of an imported image

`ImageEnvironment` and `importChanges` of `hostagent/rootfs.go`. A Fly machine's own root filesystem becomes the runner image of its slots, and the image's environment is written as `ENV` instructions of a Dockerfile. `readDockerfile` is how Docker reads such a text back.
-/

namespace RunnerYard

def bootDNSVariable : String := "RUNNERYARD_DOCKER_DNS"

def envKeyFirst (c : Char) : Bool := ('A' ≤ c && c ≤ 'Z') || ('a' ≤ c && c ≤ 'z') || c == '_'

def envKeyRest (c : Char) : Bool := envKeyFirst c || ('0' ≤ c && c ≤ '9') || c == '.' || c == '-'

/-- `^[A-Za-z_][A-Za-z0-9_.-]{0,254}$`. -/
def envKey (key : String) : Bool := Text.startsThen envKeyFirst envKeyRest 254 key

def escaped (c : Char) : Bool := c == '\\' || c == '"' || c == '$'

def dockerfileQuoted (value : String) : String :=
  String.ofList (value.toList.flatMap fun c => if escaped c then ['\\', c] else [c])

def controlCharacter (r : Char) : Bool := (r < ' ' && r != '\t') || r == '\x7f'

/-- The error `environment variable %q cannot be set in an image`. -/
structure UnsettableVariable where
  key : String
deriving DecidableEq, Repr

/-- `ImageEnvironment`; the map of inherited entries is the list it is made from. -/
def imageEnvironment (environ initEnviron : List String) : Except UnsettableVariable (List String) :=
  match environ with
  | [] => .ok []
  | entry :: environ =>
    match Text.cut '=' entry with
    | none => imageEnvironment environ initEnviron
    | some (key, value) =>
      if entry ∈ initEnviron ∨ "FLY_".toList <+: key.toList ∨ key = bootDNSVariable then imageEnvironment environ initEnviron
      else if !envKey key || value.toList.any controlCharacter then .error ⟨key⟩
      else (imageEnvironment environ initEnviron).map (entry :: ·)

def importChanges (env : List String) : List String :=
  "USER runner" :: env.map fun entry =>
    let (key, value) := (Text.cut '=' entry).getD (entry, "")
    "ENV " ++ key ++ "=\"" ++ dockerfileQuoted value ++ "\""

/-! ### How Docker reads the instructions -/

/-- An instruction: the user it names, or the variables it sets. -/
inductive Instruction where
  | user (name : String)
  | env (assignments : List (String × String))
deriving DecidableEq, Repr

/-- The rest of a double-quoted value and what follows its closing quote. A backslash escapes a backslash, a quote and a dollar; a substitution gives no value. -/
def readQuoted : List Char → Option (List Char × List Char)
  | [] => none
  | '"' :: rest => some ([], rest)
  | '$' :: _ => none
  | '\\' :: c :: rest => (readQuoted rest).map fun read => (if escaped c then c :: read.1 else '\\' :: c :: read.1, read.2)
  | c :: rest => (readQuoted rest).map fun read => (c :: read.1, read.2)

/-- The assignments of an `ENV` instruction: names that are read as they stand, each with a quoted value, separated by blanks. -/
def readAssignments : Nat → List Char → Option (List (String × String))
  | 0, _ => none
  | fuel + 1, s =>
    match s.span (· ≠ '=') with
    | (key, '=' :: '"' :: quoted) =>
      if key.any fun c => c.isWhitespace || escaped c then none
      else
        match readQuoted quoted with
        | some (value, []) => some [(String.ofList key, String.ofList value)]
        | some (value, ' ' :: rest) => (readAssignments fuel rest).map ((String.ofList key, String.ofList value) :: ·)
        | _ => none
    | _ => none

def readInstruction (line : String) : Option Instruction :=
  match line.toList with
  | 'U' :: 'S' :: 'E' :: 'R' :: ' ' :: name => some (.user (String.ofList name))
  | 'E' :: 'N' :: 'V' :: ' ' :: rest => (readAssignments rest.length rest).map .env
  | _ => none

def readDockerfile (text : String) : Option (List Instruction) := (Text.split '\n' text).mapM readInstruction

/-! ### What is written is read back -/

theorem readQuoted_quoted (value rest : List Char) :
    readQuoted ((value.flatMap fun c => if escaped c then ['\\', c] else [c]) ++ '"' :: rest) = some (value, rest) := by
  induction value with
  | nil => rfl
  | cons c value ih =>
    rw [List.flatMap_cons]
    by_cases hescaped : escaped c = true
    · simp [hescaped, readQuoted, ih]
    · have hplain : c ≠ '\\' ∧ c ≠ '"' ∧ c ≠ '$' := by simpa [escaped, and_assoc] using hescaped
      rw [if_neg hescaped, List.cons_append, List.nil_append, List.cons_append, readQuoted.eq_5, ih, Option.map_some]
      · exact fun h => hplain.2.1 h
      · exact fun h => hplain.2.2 h
      · intro d tail h
        exact absurd h hplain.1

theorem envKey_plain {key : String} (hkey : envKey key = true) :
    (key.toList.any fun c => c.isWhitespace || escaped c) = false ∧ '=' ∉ key.toList ∧ '\n' ∉ key.toList := by
  have hrest : ∀ c ∈ key.toList, envKeyRest c = true := by
    unfold envKey Text.startsThen at hkey
    cases hchars : key.toList with
    | nil => simp
    | cons first rest =>
      simp only [hchars, Bool.and_eq_true, List.all_eq_true] at hkey
      intro c hc
      rcases List.mem_cons.mp hc with rfl | hc
      · simp [envKeyRest, hkey.1.1]
      · exact hkey.1.2 c hc
  have hnot : ∀ c, envKeyRest c = false → c ∉ key.toList := by
    intro c hc hmem
    rw [hrest c hmem] at hc
    exact absurd hc (by decide)
  refine ⟨?_, hnot _ (by decide), hnot _ (by decide)⟩
  rw [List.any_eq_false]
  intro c hc hblank
  have hadmitted := hrest c hc
  simp only [Char.isWhitespace, escaped, Bool.or_eq_true, beq_iff_eq, decide_eq_true_eq] at hblank
  rcases hblank with (((rfl | rfl) | rfl) | rfl) | ((rfl | rfl) | rfl) <;> exact absurd hadmitted (by decide)

theorem newline_not_mem_quoted {value : String} (hvalue : value.toList.any controlCharacter = false) : '\n' ∉ (dockerfileQuoted value).toList := by
  intro hmem
  simp only [dockerfileQuoted, String.toList_ofList, List.mem_flatMap] at hmem
  obtain ⟨c, hc, hin⟩ := hmem
  have hnewline : '\n' = c := by
    by_cases hescaped : escaped c = true
    · simpa [hescaped] using hin
    · simpa [hescaped] using hin
  rw [List.any_eq_false] at hvalue
  exact hvalue c hc (by rw [← hnewline]; decide)

theorem readInstruction_env {key value : String} (hkey : envKey key = true) :
    readInstruction ("ENV " ++ key ++ "=\"" ++ dockerfileQuoted value ++ "\"") = some (.env [(key, value)]) := by
  obtain ⟨hplain, hequals, -⟩ := envKey_plain hkey
  have hspan : (key.toList ++ '=' :: '"' :: ((dockerfileQuoted value).toList ++ ['"'])).span (· ≠ '=') =
      (key.toList, '=' :: '"' :: ((dockerfileQuoted value).toList ++ ['"'])) := by
    have hall : ∀ c ∈ key.toList, decide (c ≠ '=') = true := fun c hc => decide_eq_true fun heq => hequals (heq ▸ hc)
    rw [List.span_eq_takeWhile_dropWhile, List.takeWhile_append_of_pos hall, List.dropWhile_append_of_pos hall]
    simp
  have hchars : ("ENV " ++ key ++ "=\"" ++ dockerfileQuoted value ++ "\"").toList =
      'E' :: 'N' :: 'V' :: ' ' :: (key.toList ++ '=' :: '"' :: ((dockerfileQuoted value).toList ++ ['"'])) := by
    simp [String.toList_append]
  have hread : readQuoted ((dockerfileQuoted value).toList ++ ['"']) = some (value.toList, []) := by
    rw [dockerfileQuoted, String.toList_ofList]
    exact readQuoted_quoted value.toList []
  unfold readInstruction
  rw [hchars]
  simp only [List.length_append, List.length_cons, Nat.add_succ, readAssignments, hspan, hplain, hread]
  simp

theorem imageEnvironment_ok {environ initEnviron env : List String} (h : imageEnvironment environ initEnviron = .ok env) :
    (∀ entry ∈ env, ∃ key value, Text.cut '=' entry = some (key, value) ∧ envKey key = true ∧ value.toList.any controlCharacter = false) ∧
      ∀ entry key value, Text.cut '=' entry = some (key, value) →
        (entry ∈ env ↔ entry ∈ environ ∧ entry ∉ initEnviron ∧ ¬"FLY_".toList <+: key.toList ∧ key ≠ bootDNSVariable) := by
  induction environ generalizing env with
  | nil =>
    simp only [imageEnvironment, Except.ok.injEq] at h
    simp [← h]
  | cons entry environ ih =>
    rw [imageEnvironment] at h
    cases hcut : Text.cut '=' entry with
    | none =>
      simp only [hcut] at h
      refine ⟨(ih h).1, fun other key value hother => ?_⟩
      have hne : other ≠ entry := by
        rintro rfl
        simp [hcut] at hother
      simp [(ih h).2 other key value hother, hne]
    | some assignment =>
      obtain ⟨key, value⟩ := assignment
      simp only [hcut] at h
      split at h
      · rename_i hskipped
        refine ⟨(ih h).1, fun other key' value' hother => ?_⟩
        rw [(ih h).2 other key' value' hother, List.mem_cons]
        refine and_congr_left fun hkept => ⟨Or.inr, fun hmem => hmem.resolve_left ?_⟩
        rintro rfl
        obtain ⟨rfl, rfl⟩ : key = key' ∧ value = value' := by simpa [hcut] using hother
        rcases hskipped with hinit | hfly | hdns
        · exact hkept.1 hinit
        · exact hkept.2.1 hfly
        · exact hkept.2.2 hdns
      · rename_i hkept
        split at h
        · simp at h
        · rename_i hsettable
          simp only [Bool.or_eq_true, Bool.not_eq_true', not_or, Bool.not_eq_false, Bool.not_eq_true] at hsettable
          cases hrest : imageEnvironment environ initEnviron with
          | error e => simp [hrest, Except.map] at h
          | ok rest =>
            simp only [hrest, Except.map, Except.ok.injEq] at h
            subst h
            refine ⟨?_, fun other key' value' hother => ?_⟩
            · intro other hother
              rcases List.mem_cons.mp hother with rfl | hother
              · exact ⟨key, value, hcut, hsettable⟩
              · exact (ih hrest).1 other hother
            · rw [List.mem_cons, List.mem_cons, (ih hrest).2 other key' value' hother]
              constructor
              · rintro (rfl | hmem)
                · obtain ⟨rfl, rfl⟩ : key = key' ∧ value = value' := by simpa [hcut] using hother
                  simp only [not_or] at hkept
                  exact ⟨Or.inl rfl, hkept⟩
                · exact ⟨Or.inr hmem.1, hmem.2⟩
              · rintro ⟨rfl | hmem, hkept'⟩
                · exact Or.inl rfl
                · exact Or.inr ⟨hmem, hkept'⟩

/-- **Image environment survives import.** Docker reads the changes of an accepted environment as the user and one instruction per entry, which sets its variable to its value; the entries are those not inherited from init, Fly's or the boot's. -/
theorem readDockerfile_importChanges {environ initEnviron env : List String} (h : imageEnvironment environ initEnviron = .ok env) :
    readDockerfile (Text.join "\n" (importChanges env)) = some (.user "runner" :: (env.filterMap (Text.cut '=')).map fun assignment => .env [assignment]) ∧
      ∀ key value, (key, value) ∈ env.filterMap (Text.cut '=') ↔
        ∃ entry ∈ environ, Text.cut '=' entry = some (key, value) ∧ entry ∉ initEnviron ∧ ¬"FLY_".toList <+: key.toList ∧ key ≠ bootDNSVariable := by
  obtain ⟨hentries, hmem⟩ := imageEnvironment_ok h
  constructor
  · have hlines : ∀ line ∈ importChanges env, '\n' ∉ line.toList := by
      intro line hline
      rcases List.mem_cons.mp hline with rfl | hline
      · decide
      · obtain ⟨entry, hentry, rfl⟩ := List.mem_map.mp hline
        obtain ⟨key, value, hcut, hkey, hvalue⟩ := hentries entry hentry
        simp [hcut, String.toList_append, (envKey_plain hkey).2.2, newline_not_mem_quoted hvalue]
    have hsplit := Text.split_intercalate hlines (by simp [importChanges])
    rw [readDockerfile, Text.join]
    rw [show "\n".toList = ['\n'] from rfl, hsplit]
    have hchanges : (env.map fun entry =>
        let (key, value) := (Text.cut '=' entry).getD (entry, "")
        "ENV " ++ key ++ "=\"" ++ dockerfileQuoted value ++ "\"").mapM readInstruction =
          some ((env.filterMap (Text.cut '=')).map fun assignment => Instruction.env [assignment]) := by
      clear h hmem hlines hsplit
      induction env with
      | nil => rfl
      | cons entry env ih =>
        obtain ⟨key, value, hcut, hkey, -⟩ := hentries entry List.mem_cons_self
        simp [hcut, readInstruction_env hkey, ih fun other hother => hentries other (List.mem_cons_of_mem _ hother)]
    rw [importChanges, List.mapM_cons, hchanges]
    rfl
  · intro key value
    rw [List.mem_filterMap]
    constructor
    · rintro ⟨entry, hentry, hcut⟩
      obtain ⟨henviron, hkept⟩ := (hmem entry key value hcut).mp hentry
      exact ⟨entry, henviron, hcut, hkept⟩
    · rintro ⟨entry, henviron, hcut, hkept⟩
      exact ⟨entry, (hmem entry key value hcut).mpr ⟨henviron, hkept⟩, hcut⟩

/-- A value with all that is escaped, next to an inherited entry and one of Fly's. -/
theorem readDockerfile_importChanges_example :
    readDockerfile (Text.join "\n" (importChanges ["A=\"$x\\ B=\"1"])) = some [.user "runner", .env [("A", "\"$x\\ B=\"1")]] :=
  (readDockerfile_importChanges (show imageEnvironment ["TERM=linux", "A=\"$x\\ B=\"1", "FLY_REGION=cdg"] ["TERM=linux"] = .ok ["A=\"$x\\ B=\"1"] by decide)).1

end RunnerYard
