import RunnerYard.Base.Text
import RunnerYard.Pool.System

/-!
# Image references

`Parse`, `Pin` and the tag a pool follows, of `registry/registry.go`. A reference is `[registry/]repository[:tag][@digest]`; the regular expressions are given as the machines that accept what they match. What makes a pinned name read back is that no part of a repository's path can be taken for a tag: `parse_repository` says so.
-/

namespace RunnerYard.Registry

def dockerHub : String := "docker.io"

def alphanumeric (c : Char) : Bool := ('a' ≤ c && c ≤ 'z') || ('0' ≤ c && c ≤ '9')

/-- `^sha256:[a-f0-9]{64}$`. -/
def digestPattern (digest : String) : Bool :=
  match Text.cut ':' digest with
  | some (algorithm, hex) => algorithm = "sha256" && hex.toList.all hexDigit && hex.toList.length = 64
  | none => false

/-- `^[A-Za-z0-9_][A-Za-z0-9_.-]{0,127}$`. -/
def tagPattern (tag : String) : Bool :=
  Text.startsThen (fun c => c.isAlphanum || c = '_') (fun c => c.isAlphanum || c = '_' || c = '.' || c = '-') 127 tag

/-- Where a match of `pathPattern` stands: before a word, in one, behind a separator that is complete, behind one underscore, behind hyphens, or nowhere. -/
inductive PathState where
  | start | word | separated | underscore | hyphens | failed
deriving DecidableEq, Repr

def PathState.next : PathState → Char → PathState
  | .failed, _ => .failed
  | state, c =>
    if alphanumeric c then .word
    else
      match state, c with
      | .word, '/' => .start
      | .word, '.' => .separated
      | .word, '_' => .underscore
      | .underscore, '_' => .separated
      | .word, '-' | .hyphens, '-' => .hyphens
      | _, _ => .failed

/-- `^[a-z0-9]+(?:(?:[._]|__|-+)[a-z0-9]+)*(?:/[a-z0-9]+(?:(?:[._]|__|-+)[a-z0-9]+)*)*$`. -/
def pathPattern (path : String) : Bool := path.toList.foldl PathState.next .start = .word

/-- `[A-Za-z0-9](?:[A-Za-z0-9-]*[A-Za-z0-9])?`. -/
def hostLabel (label : String) : Bool :=
  label.toList.head?.any Char.isAlphanum && label.toList.getLast?.any Char.isAlphanum && label.toList.all fun c => c.isAlphanum || c = '-'

/-- Host labels separated by dots, and a port of one to five digits behind a colon. -/
def hostPattern (host : String) : Bool :=
  match Text.cut ':' host with
  | none => (Text.split '.' host).all hostLabel
  | some (name, port) => (Text.split '.' name).all hostLabel && port.toList.all Char.isDigit && 1 ≤ port.toList.length && port.toList.length ≤ 5

structure Reference where
  registry : String
  repository : String
  tag : String
  digest : String
  name : String
deriving DecidableEq, Repr

/-- The errors of `Parse` about one image, and that of `NewTag` for a pinned one. -/
inductive ReferenceError where
  | invalidDigest | invalidTag | invalidRegistryHost | invalidRepository | pinned
deriving DecidableEq, Repr

/-- The name without its tag, and the tag: what stands behind the last colon, if no slash follows it. -/
def parseTag (name : String) : Except ReferenceError (String × String) :=
  match Text.cutLast ':' name with
  | some (before, tag) =>
    if '/' ∈ tag.toList then .ok (name, "") else if tagPattern tag then .ok (before, tag) else .error .invalidTag
  | none => .ok (name, "")

/-- `strings.ContainsAny(first, ".:") || first == "localhost"`. -/
def namesHost (first : String) : Bool := first.toList.any (fun c => c = '.' || c = ':') || first = "localhost"

/-- The host a name begins with and the path behind it, before the defaults of Docker Hub. -/
def parseHost (name : String) : Except ReferenceError (String × String) :=
  match Text.cut '/' name with
  | some (first, rest) =>
    if namesHost first then if hostPattern first then .ok (String.ofList (first.toList.map Char.toLower), rest) else .error .invalidRegistryHost
    else .ok (dockerHub, name)
  | none => .ok (dockerHub, name)

/-- The registry and the repository of a name without tag and digest. -/
def parseRepository (name : String) : Except ReferenceError (String × String) :=
  match parseHost name with
  | .error e => .error e
  | .ok (host, path) =>
    let host := if host = "index.docker.io" then dockerHub else host
    if !pathPattern path then .error .invalidRepository
    else if host = dockerHub && !('/' ∈ path.toList) then .ok (host, "library/" ++ path)
    else .ok (host, path)

def parse (image : String) : Except ReferenceError Reference :=
  let (name, digest) := (Text.cut '@' image).getD (image, "")
  let pinned := (Text.cut '@' image).isSome
  if pinned && !digestPattern digest then .error .invalidDigest
  else
    match parseTag name with
    | .error e => .error e
    | .ok (name, tag) =>
      match parseRepository name with
      | .error e => .error e
      | .ok (registry, repository) => .ok { registry, repository, tag := if !pinned && tag = "" then "latest" else tag, digest, name }

namespace Reference

def pinned (r : Reference) : Bool := r.digest ≠ ""

def pin (r : Reference) (digest : String) : String := r.name ++ "@" ++ digest

/-- `Tag.Related`. -/
def related (r : Reference) (image : String) : Bool :=
  match parse image with
  | .ok ref => ref.registry = r.registry && ref.repository = r.repository
  | .error _ => false

end Reference

/-- `NewTag`: the reference that the tag follows. -/
def newTag (image : String) : Except ReferenceError Reference :=
  match parse image with
  | .error e => .error e
  | .ok ref => if ref.pinned then .error .pinned else .ok ref

/-! ### A name without its tag -/

theorem foldl_failed (l : List Char) : l.foldl PathState.next .failed = .failed := by
  induction l with
  | nil => rfl
  | cons c l ih => exact ih

theorem colon_not_mem_path {path : String} (h : pathPattern path = true) : ':' ∉ path.toList := by
  intro hmem
  obtain ⟨before, after, hpath⟩ := List.append_of_mem hmem
  have hfailed : ∀ state : PathState, state.next ':' = .failed := by
    intro state
    cases state <;> rfl
  rw [pathPattern, hpath, List.foldl_append, List.foldl_cons, hfailed, foldl_failed] at h
  exact absurd h (by decide)

theorem parseRepository_ok {name registry repository : String} (h : parseRepository name = .ok (registry, repository)) :
    ∃ host path, parseHost name = .ok (host, path) ∧ pathPattern path = true := by
  unfold parseRepository at h
  cases hhost : parseHost name with
  | error e => simp [hhost] at h
  | ok r =>
    by_cases hpath : pathPattern r.2 = true
    · exact ⟨r.1, r.2, rfl, hpath⟩
    · simp [hhost, hpath] at h

theorem slash_mem_of_cutLast {name registry repository before after : String} (h : parseRepository name = .ok (registry, repository))
    (hcut : Text.cutLast ':' name = some (before, after)) : '/' ∈ after.toList := by
  obtain ⟨host, path, hhost, hpath⟩ := parseRepository_ok h
  have hcolon := colon_not_mem_path hpath
  obtain ⟨hname, hafter⟩ := Text.cutLast_eq_some hcut
  unfold parseHost at hhost
  cases hslash : Text.cut '/' name with
  | none =>
    simp only [hslash, Except.ok.injEq, Prod.mk.injEq] at hhost
    rw [← hhost.2, hname] at hcolon
    simp at hcolon
  | some parts =>
    obtain ⟨first, rest⟩ := parts
    simp only [hslash] at hhost
    split at hhost
    · split at hhost
      · -- The colon belongs to the host, and the slash that ends the host follows it.
        simp only [Except.ok.injEq, Prod.mk.injEq] at hhost
        rw [← hhost.2] at hcolon
        have hsplit := (Text.cut_eq_some hslash).1
        rw [hname] at hsplit
        rcases List.append_eq_append_iff.mp hsplit with ⟨mid, -, htail⟩ | ⟨mid, -, htail⟩
        · cases mid with
          | nil => simp at htail
          | cons c mid =>
            rw [List.cons_append, List.cons.injEq] at htail
            simp [htail.2]
        · cases mid with
          | nil => simp at htail
          | cons c mid =>
            rw [List.cons_append, List.cons.injEq] at htail
            exact absurd (by simp [htail.2]) hcolon
      · simp at hhost
    · simp only [Except.ok.injEq, Prod.mk.injEq] at hhost
      rw [← hhost.2, hname] at hcolon
      simp at hcolon

theorem parseTag_of_parseRepository {name registry repository : String} (h : parseRepository name = .ok (registry, repository)) :
    parseTag name = .ok (name, "") := by
  unfold parseTag
  cases hcut : Text.cutLast ':' name with
  | none => rfl
  | some parts => simp [slash_mem_of_cutLast h hcut]

theorem parse_ok {image : String} {ref : Reference} (h : parse image = .ok ref) :
    ∃ name tag, (Text.cut '@' image).getD (image, "") = (name, ref.digest) ∧ ((Text.cut '@' image).isSome → digestPattern ref.digest = true) ∧
      parseTag name = .ok (ref.name, tag) ∧ parseRepository ref.name = .ok (ref.registry, ref.repository) := by
  unfold parse at h
  cases hparts : (Text.cut '@' image).getD (image, "") with
  | mk name digest =>
    simp only [hparts] at h
    split at h
    · simp at h
    · rename_i hdigest
      cases htag : parseTag name with
      | error e => simp [htag] at h
      | ok r =>
        cases hrepository : parseRepository r.1 with
        | error e => simp [htag, hrepository] at h
        | ok s =>
          simp only [htag, hrepository, Except.ok.injEq] at h
          subst h
          exact ⟨name, r.2, rfl, fun hsome => by simpa [hsome] using hdigest, htag, hrepository⟩

theorem mem_of_parseTag {name rest tag : String} (h : parseTag name = .ok (rest, tag)) {c : Char} (hc : c ∈ rest.toList) : c ∈ name.toList := by
  unfold parseTag at h
  cases hlast : Text.cutLast ':' name with
  | none =>
    simp only [hlast, Except.ok.injEq, Prod.mk.injEq] at h
    rwa [h.1]
  | some parts =>
    simp only [hlast] at h
    split at h
    · simp only [Except.ok.injEq, Prod.mk.injEq] at h
      rwa [h.1]
    · split at h
      · simp only [Except.ok.injEq, Prod.mk.injEq] at h
        rw [(Text.cutLast_eq_some hlast).1, h.1]
        exact List.mem_append_left _ hc
      · simp at h

theorem parse_unpinned {image : String} {ref : Reference} (h : parse image = .ok ref) (hpinned : ref.pinned = false) :
    '@' ∉ image.toList ∧ '@' ∉ ref.name.toList ∧ parseRepository ref.name = .ok (ref.registry, ref.repository) := by
  obtain ⟨name, tag, hparts, hdigest, htag, hrepository⟩ := parse_ok h
  cases hcut : Text.cut '@' image with
  | some parts =>
    -- A digest that was accepted is not empty.
    have hempty : ref.digest = "" := by simpa [Reference.pinned] using hpinned
    have haccepted := hdigest (by simp [hcut])
    rw [hempty] at haccepted
    exact absurd haccepted (by decide)
  | none =>
    have hat := Text.cut_eq_none.mp hcut
    rw [hcut, Option.getD_none, Prod.mk.injEq] at hparts
    rw [← hparts.1] at htag
    exact ⟨hat, fun hmem => hat (mem_of_parseTag htag hmem), hrepository⟩

theorem parse_pin {ref : Reference} {digest : String} (hname : '@' ∉ ref.name.toList)
    (hrepository : parseRepository ref.name = .ok (ref.registry, ref.repository)) (hdigest : digestPattern digest = true) :
    parse (ref.pin digest) = .ok { ref with tag := "", digest } := by
  have hcut : Text.cut '@' (ref.pin digest) = some (ref.name, digest) := Text.cut_append hname digest
  simp [parse, hcut, hdigest, parseTag_of_parseRepository hrepository, hrepository]

/-! ### Images of one repository -/

/-- An image that `Parse` accepts. -/
abbrev Parseable : Type := { image : String // ∃ ref, parse image = .ok ref }

/-- `Related` for the reference that an image stands for. -/
def SameRepository (a b : Parseable) : Prop := ∃ ref, parse a.1 = .ok ref ∧ ref.related b.1 = true

theorem related_iff {r : Reference} {image : String} :
    r.related image = true ↔ ∃ ref, parse image = .ok ref ∧ ref.registry = r.registry ∧ ref.repository = r.repository := by
  unfold Reference.related
  cases parse image with
  | error e => simp
  | ok ref => simp

theorem sameRepository_equivalence : Equivalence SameRepository where
  refl a := by
    obtain ⟨ref, href⟩ := a.2
    exact ⟨ref, href, related_iff.mpr ⟨ref, href, rfl, rfl⟩⟩
  symm := by
    rintro a b ⟨ref, href, hrelated⟩
    obtain ⟨ref', href', hregistry, hrepository⟩ := related_iff.mp hrelated
    exact ⟨ref', href', related_iff.mpr ⟨ref, href, hregistry.symm, hrepository.symm⟩⟩
  trans := by
    rintro a b c ⟨ref, href, hab⟩ ⟨ref', href', hbc⟩
    obtain ⟨other, hother, hregistry, hrepository⟩ := related_iff.mp hab
    obtain rfl : ref' = other := Except.ok.inj (href'.symm.trans hother)
    obtain ⟨last, hlast, hregistry', hrepository'⟩ := related_iff.mp hbc
    exact ⟨ref, href, related_iff.mpr ⟨last, hlast, hregistry'.trans hregistry, hrepository'.trans hrepository⟩⟩

open Pool in
/-- **A followed tag.** For every image that `NewTag` accepts and every digest, the pinned image parses to the same repository and to that digest, and is related to the tag, which is an equivalence; so `followTag` takes it up, and no image of another repository. -/
theorem related_pin {image : String} {ref : Reference} (htag : newTag image = .ok ref) {digest : String} (hdigest : digestPattern digest = true) :
    (∃ pinned, parse (ref.pin digest) = .ok pinned ∧ pinned.registry = ref.registry ∧ pinned.repository = ref.repository ∧ pinned.digest = digest) ∧
      ref.related (ref.pin digest) = true ∧ ref.pin digest ≠ image ∧ Equivalence SameRepository ∧
        ∀ (cfg : Pool.Config) (now : Int) (p : Pool), cfg.image = image → cfg.follow = some ⟨ref.related⟩ →
          ((followed cfg now (.ok (ref.pin digest)) p).image = ref.pin digest ∧ (followed cfg now (.ok (ref.pin digest)) p).imageCheckAt = now + cfg.imageRefresh) ∧
            ∀ other, (∀ r, parse other = .ok r → r.registry ≠ ref.registry ∨ r.repository ≠ ref.repository) →
              followed cfg now (.ok other) p = { p with imageCheckAt := now + imageRetry } := by
  obtain ⟨hparse, hpinned⟩ : parse image = .ok ref ∧ ref.pinned = false := by
    unfold newTag at htag
    cases hparse : parse image with
    | error e => simp [hparse] at htag
    | ok r =>
      by_cases hpinned : r.pinned = true
      · simp [hparse, hpinned] at htag
      · simp only [hparse, hpinned, Bool.false_eq_true, if_false, Except.ok.injEq] at htag
        simpa [← htag] using hpinned
  obtain ⟨himage, hname, hrepository⟩ := parse_unpinned hparse hpinned
  have hpin := parse_pin hname hrepository hdigest
  have hrelated : ref.related (ref.pin digest) = true := related_iff.mpr ⟨_, hpin, rfl, rfl⟩
  have hne : ref.pin digest ≠ image := by
    rintro rfl
    simp [Reference.pin, String.toList_append] at himage
  refine ⟨⟨_, hpin, rfl, rfl, rfl⟩, hrelated, hne, sameRepository_equivalence, ?_⟩
  intro cfg now p hcfg hfollow
  constructor
  · unfold followed
    by_cases hcurrent : ref.pin digest = p.image
    · simp [hfollow, hrelated, hcfg, ← hcurrent, hne]
    · simp [hfollow, hrelated, hcfg, hcurrent, hne]
  · intro other hother
    have hunrelated : ref.related other = false := by
      rw [← Bool.not_eq_true, related_iff]
      rintro ⟨r, hr, hregistry, hrepository'⟩
      exact (hother r hr).elim (fun h => h hregistry) fun h => h hrepository'
    simp [followed, hfollow, hunrelated]

/-- An image with a port, a tag and a digest of zeros. -/
theorem related_pin_example :
    let ref : Reference := { registry := "ghcr.io:443", repository := "acme/ci-runner", tag := "v1.2", digest := "", name := "GHCR.io:443/acme/ci-runner" }
    let digest := "sha256:" ++ String.ofList (List.replicate 64 '0')
    newTag "GHCR.io:443/acme/ci-runner:v1.2" = .ok ref ∧ digestPattern digest = true ∧ ref.related (ref.pin digest) = true :=
  ⟨by decide, by decide, (@related_pin "GHCR.io:443/acme/ci-runner:v1.2" _ (by decide) _ (by decide)).2.1⟩

end RunnerYard.Registry
