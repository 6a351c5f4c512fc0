import Mathlib.Data.Rat.Floor
import RunnerYard.Base.Text

/-!
# What a slot keeps on its host

The configuration of a host and the names its slots' storage goes by: `Validate` and `volumes` of `hostagent/agent.go`, and the work directories of `hostagent/workspace.go`. Everything a slot owns is named after its number and a hyphen, so that what is shown about one slot rests on reading the number back.
-/

namespace RunnerYard.HostAgent

/-- `SlotCPUs`, a float64, is the rational number it stands for. -/
structure Config where
  slots : Int
  image : String
  slotCPUs : Rat := 0
  slotMemoryMB : Int := 0
  caches : List String := []
  minFreeDiskGB : Int := 0
  dockerRoot : String := ""
deriving DecidableEq

def maxSlots : Int := 64

def maxCaches : Nat := 8

def minimumSlotMemoryMB : Int := 512

def safeLabelValue : String → Bool := Text.startsThen Char.isAlphanum (fun c => c.isAlphanum || c = '.' || c = '_' || c = '-') 62

def safeImage : String → Bool :=
  Text.startsThen Char.isAlphanum (fun c => c.isAlphanum || c = '.' || c = '_' || c = '/' || c = ':' || c = '@' || c = '-') 254

/-- A slash, and then letters, digits, dots, underscores, slashes and hyphens, at least one. -/
def safeCachePath (path : String) : Bool :=
  match path.toList with
  | '/' :: rest => rest ≠ [] && rest.all fun c => c.isAlphanum || c = '.' || c = '_' || c = '/' || c = '-'
  | _ => false

/-- `filepath.Clean(path) == path` for a path that starts with a slash: no element is empty or stands for a directory above or for none. -/
def isClean (path : String) : Bool := (Text.split '/' path).tail.all fun part => part ≠ "" && part ≠ "." && part ≠ ".."

def hasPrefix (s start : String) : Bool := start.toList.isPrefixOf s.toList

def validCachePath (path : String) : Bool :=
  safeCachePath path && isClean path && path ≠ "/home/runner/_work" && path ≠ "/var/lib/docker" &&
    ["/home/runner/", "/opt/"].any fun root => hasPrefix path root && root.length < path.length

def cacheVolumeSuffix (path : String) : String :=
  let trimmed := match path.toList with
    | '/' :: rest => rest
    | chars => chars
  String.ofList (trimmed.map fun c => if c = '/' then '-' else c)

/-- The errors of `Validate`; the two about a cache name its path. -/
inductive ConfigError where
  | slots
  | image
  | slotShape
  | cacheCount
  | cachePath (path : String)
  | cacheShared (path : String)
  | minFreeDisk
  | dockerRoot
deriving DecidableEq, Repr

/-- The loop of `Validate` over the cache paths. -/
def checkCaches (seen : List String) : List String → Except ConfigError Unit
  | [] => .ok ()
  | path :: paths =>
    if !validCachePath path then .error (.cachePath path)
    else if cacheVolumeSuffix path ∈ seen then .error (.cacheShared path)
    else checkCaches (cacheVolumeSuffix path :: seen) paths

def Config.validate (c : Config) : Except ConfigError Unit :=
  if c.slots < 1 || maxSlots < c.slots then .error .slots
  else if !safeImage c.image then .error .image
  else if c.slotCPUs < 0 || 512 < c.slotCPUs || c.slotMemoryMB < 0 || (0 < c.slotMemoryMB && c.slotMemoryMB < minimumSlotMemoryMB) then .error .slotShape
  else if maxCaches < c.caches.length then .error .cacheCount
  else
    match checkCaches [] c.caches with
    | .error e => .error e
    | .ok () =>
      if c.minFreeDiskGB < 0 || 10000 < c.minFreeDiskGB then .error .minFreeDisk
      else if c.dockerRoot ≠ "" && !hasPrefix c.dockerRoot "/" then .error .dockerRoot
      else .ok ()

/-! ### Names -/

structure Volume where
  name : String
  target : String
deriving DecidableEq, Repr

def containerName (slot : Int) : String := "runneryard-slot-" ++ Text.itoa slot

def Config.volumes (c : Config) (slot : Int) : List Volume :=
  { name := containerName slot ++ "-docker", target := "/var/lib/docker" } ::
    c.caches.map fun path => { name := containerName slot ++ "-cache-" ++ cacheVolumeSuffix path, target := path }

def retiredWorkVolume (slot : Int) : String := containerName slot ++ "-work"

def workspacePrefix : String := "slot-"

def retiredWorkspacePrefix : String := "deleting-"

def slotWorkspacePrefix (slot : Int) : String := workspacePrefix ++ Text.itoa slot ++ "-"

def slotWorkspace (slot : Int) (leaseID : String) : String := slotWorkspacePrefix slot ++ leaseID

/-- `retireWorkspaces`: the renames it makes in the work root, each answered by the random text of its target, or by a failure, which ends the loop. -/
def retireWorkspaces (start : String) : List String → List (Option String) → List (String × String)
  | [], _ => []
  | name :: entries, answers =>
    if !hasPrefix name start then retireWorkspaces start entries answers
    else
      match answers with
      | some text :: answers => (name, retiredWorkspacePrefix ++ name ++ "-" ++ text) :: retireWorkspaces start entries answers
      | _ => []

/-- `discardWorkspaces`, which a start and a removal on a slot call. -/
def discardWorkspaces (slot : Int) : List String → List (Option String) → List (String × String) := retireWorkspaces (slotWorkspacePrefix slot)

/-- `purge`: the entries of the work root it deletes, of which some may fail. -/
def purge (entries : List String) : List String := entries.filter fun name => hasPrefix name retiredWorkspacePrefix

/-! ### The names of two slots -/

theorem hasPrefix_iff {s start : String} : hasPrefix s start = true ↔ start.toList <+: s.toList := List.isPrefixOf_iff_prefix

theorem nodup_of_checkCaches {seen paths : List String} (h : checkCaches seen paths = .ok ()) :
    (paths.map cacheVolumeSuffix).Nodup ∧ ∀ path ∈ paths, validCachePath path = true ∧ cacheVolumeSuffix path ∉ seen := by
  induction paths generalizing seen with
  | nil => simp
  | cons path paths ih =>
    simp only [checkCaches] at h
    split at h
    · simp at h
    · rename_i hvalid
      split at h
      · simp at h
      · rename_i hseen
        obtain ⟨hnodup, hrest⟩ := ih h
        refine ⟨?_, ?_⟩
        · rw [List.map_cons, List.nodup_cons]
          refine ⟨?_, hnodup⟩
          rintro hmem
          obtain ⟨other, hother, heq⟩ := List.mem_map.mp hmem
          exact (hrest other hother).2 (by simp [heq])
        · intro other hother
          rcases List.mem_cons.mp hother with rfl | hother
          · exact ⟨by simpa using hvalid, hseen⟩
          · exact ⟨(hrest other hother).1, fun hmem => (hrest other hother).2 (List.mem_cons_of_mem _ hmem)⟩

theorem checkCaches_of_validate {c : Config} (h : c.validate = .ok ()) : checkCaches [] c.caches = .ok () := by
  unfold Config.validate at h
  repeat' split at h
  all_goals first | assumption | simp at h

theorem volume_name {c : Config} {slot : Int} {v : Volume} (hv : v ∈ c.volumes slot) :
    ∃ rest, v.name.toList = (containerName slot).toList ++ '-' :: rest ∧ rest ≠ "work".toList := by
  rcases List.mem_cons.mp hv with rfl | hv
  · exact ⟨"docker".toList, by simp [String.toList_append], by decide⟩
  · obtain ⟨path, -, rfl⟩ := List.mem_map.mp hv
    refine ⟨"cache-".toList ++ (cacheVolumeSuffix path).toList, by simp [String.toList_append], ?_⟩
    intro h
    exact absurd (List.cons.inj h).1 (by decide)

theorem containerName_hyphen_inj {i j : Nat} {a b : List Char} (h : (containerName i).toList ++ '-' :: a = (containerName j).toList ++ '-' :: b) :
    i = j ∧ a = b := by
  rw [containerName, containerName, String.toList_append, String.toList_append, List.append_assoc, List.append_assoc] at h
  exact Text.itoa_hyphen_inj (List.append_cancel_left h)

theorem nodup_volumes {c : Config} (h : c.validate = .ok ()) (slot : Int) : ((c.volumes slot).map Volume.name).Nodup := by
  rw [Config.volumes, List.map_cons, List.map_map, List.nodup_cons]
  constructor
  · intro hmem
    obtain ⟨path, -, heq⟩ := List.mem_map.mp hmem
    have hchars := congrArg String.toList heq
    simp [String.toList_append, List.append_assoc] at hchars
  · have hnodup := (nodup_of_checkCaches (checkCaches_of_validate h)).1
    rw [List.Nodup, List.pairwise_map] at hnodup ⊢
    apply hnodup.imp
    intro a b hne heq
    exact hne (String.toList_inj.mp (by simpa [String.toList_append] using congrArg String.toList heq))

theorem mem_retireWorkspaces {start : String} {entries : List String} {answers : List (Option String)} {r : String × String}
    (h : r ∈ retireWorkspaces start entries answers) : r.1 ∈ entries ∧ hasPrefix r.1 start = true := by
  induction entries generalizing answers with
  | nil => simp [retireWorkspaces] at h
  | cons name entries ih =>
    unfold retireWorkspaces at h
    split at h
    · exact ⟨List.mem_cons_of_mem _ (ih h).1, (ih h).2⟩
    · rename_i hstart
      split at h
      · rcases List.mem_cons.mp h with rfl | h
        · exact ⟨List.mem_cons_self, by simpa using hstart⟩
        · exact ⟨List.mem_cons_of_mem _ (ih h).1, (ih h).2⟩
      · simp at h

theorem not_retired {slot : Int} {name : String} (h : hasPrefix name (slotWorkspacePrefix slot) = true) : hasPrefix name retiredWorkspacePrefix = false := by
  obtain ⟨rest, hname⟩ := hasPrefix_iff.mp h
  rw [hasPrefix, ← hname]
  simp [slotWorkspacePrefix, workspacePrefix, retiredWorkspacePrefix, String.toList_append, List.isPrefixOf]

theorem slotWorkspace_hasPrefix (slot : Int) (leaseID : String) : hasPrefix (slotWorkspace slot leaseID) (slotWorkspacePrefix slot) = true := by
  rw [hasPrefix_iff, slotWorkspace, String.toList_append]
  exact List.prefix_append _ _

theorem slot_of_hasPrefix {i j : Nat} {name : String} (hi : hasPrefix name (slotWorkspacePrefix i) = true) (hj : hasPrefix name (slotWorkspacePrefix j) = true) :
    i = j := by
  obtain ⟨a, ha⟩ := hasPrefix_iff.mp hi
  obtain ⟨b, hb⟩ := hasPrefix_iff.mp hj
  have heq := ha.trans hb.symm
  simp only [slotWorkspacePrefix, String.toList_append, List.append_assoc] at heq
  exact (Text.itoa_hyphen_inj (by simpa using List.append_cancel_left heq)).1

/-- **Slots do not touch each other's storage.** Under an accepted configuration no two slots share a volume, a slot's volumes are distinct and none is a retired one; a start or removal renames only directories of its slot; and the purge deletes no live one. -/
theorem slots_share_no_storage {c : Config} (h : c.validate = .ok ()) {i j : Nat} (hij : i ≠ j) :
    ((c.volumes i).map Volume.name).Nodup ∧ (∀ v ∈ c.volumes i, ∀ u ∈ c.volumes j, v.name ≠ u.name) ∧
      (∀ v ∈ c.volumes i, ∀ k : Nat, v.name ≠ retiredWorkVolume k) ∧
        (∀ entries answers, ∀ r ∈ discardWorkspaces i entries answers, r.1 ∈ entries ∧ (∃ leaseID, r.1 = slotWorkspace i leaseID) ∧
          (∀ leaseID, r.1 ≠ slotWorkspace j leaseID) ∧ hasPrefix r.1 retiredWorkspacePrefix = false) ∧
          ∀ entries, ∀ name ∈ purge entries, ∀ (k : Nat) (leaseID : String), name ≠ slotWorkspace k leaseID := by
  refine ⟨nodup_volumes h i, ?_, ?_, ?_, ?_⟩
  · intro v hv u hu heq
    obtain ⟨a, ha, -⟩ := volume_name hv
    obtain ⟨b, hb, -⟩ := volume_name hu
    exact hij (containerName_hyphen_inj (by rw [← ha, ← hb, heq])).1
  · intro v hv k heq
    obtain ⟨a, ha, hwork⟩ := volume_name hv
    have hk : (retiredWorkVolume k).toList = (containerName k).toList ++ '-' :: "work".toList := by simp [retiredWorkVolume, String.toList_append]
    exact hwork (containerName_hyphen_inj (by rw [← ha, ← hk, heq])).2
  · intro entries answers r hr
    obtain ⟨hmem, hstart⟩ := mem_retireWorkspaces hr
    refine ⟨hmem, ?_, ?_, not_retired hstart⟩
    · obtain ⟨rest, hrest⟩ := hasPrefix_iff.mp hstart
      exact ⟨String.ofList rest, String.toList_inj.mp (by rw [slotWorkspace, String.toList_append, String.toList_ofList, hrest])⟩
    · intro leaseID heq
      rw [heq] at hstart
      exact hij (slot_of_hasPrefix hstart (slotWorkspace_hasPrefix j leaseID))
  · rintro entries name hname k leaseID rfl
    have hretired := (List.mem_filter.mp hname).2
    rw [not_retired (slotWorkspace_hasPrefix k leaseID)] at hretired
    exact absurd hretired (by decide)

/-- Slot 1 has a directory next to one of slot 11 and one that waits for deletion. -/
theorem slots_share_no_storage_two :
    let c : Config := { slots := 12, image := "runner", caches := ["/opt/a-b", "/home/runner/.npm"] }
    discardWorkspaces 1 ["deleting-slot-1-x-y", "slot-1-1-x", "slot-11-x"] [some "z"] = [("slot-1-1-x", "deleting-slot-1-1-x-z")] ∧
      ((c.volumes (1 : Nat)).map Volume.name).Nodup :=
  ⟨by decide, (@slots_share_no_storage _ (by decide) 1 11 (by decide)).1⟩

end RunnerYard.HostAgent
