import RunnerYard.Base.Regex
import RunnerYard.Base.Text
import RunnerYard.Base.Time

/-!
# Status comments

`marker.go`: the queue keeps one status comment per pull request. Its hidden markers are all the state that a tick finds of the ticks before it: the stack in flight on its top pull request, which commits of a branch are its own, and the head as it landed.
-/

namespace RunnerYard

namespace MergeQueue

def markerPrefix : String := "<!-- runneryard-merge-queue:"

def statusPrefix : String := markerPrefix ++ "status -->"

/-- One pull request in a stack, with the commit that the queue pushed to its branch. -/
structure Member where
  number : Int
  sha : String
  deriving DecidableEq, Repr, Inhabited

/-- Pull requests rebased on top of each other above `base`. `atTime` is when the stack was formed, or retried. -/
structure Stack where
  base : String
  members : List Member
  retry : Int := 0
  atTime : Int
  deriving DecidableEq, Repr

namespace Stack

/-- The last member. No stack that is written or parsed is without members. -/
def top (stack : Stack) : Member := stack.members.getLast?.getD default

def numbers (stack : Stack) : List Int := stack.members.map Member.number

theorem top_mem {stack : Stack} (h : stack.members ≠ []) : stack.top ∈ stack.members := by
  rw [top, List.getLast?_eq_some_getLast h]
  exact List.getLast_mem h

end Stack

/-- The commits `upstream..head` of a branch are the pull request's own. -/
structure Own where
  head : String
  upstream : String
  deriving DecidableEq, Repr

structure Landed where
  head : String
  deriving DecidableEq, Repr

def unixEpoch : Int := 62135596800 * Duration.second

def unix (t : Int) : Int := (t - unixEpoch) / Duration.second

/-- `time.Unix(seconds, 0)`. -/
def ofUnix (seconds : Int) : Int := unixEpoch + seconds * Duration.second

/-! ### Markers -/

namespace Pattern

open Regex

def sha : Regex := times (char hexDigit) 40

def number : Regex := plus (char Char.isDigit)

def entry : Regex := seq number (seq (one '@') sha)

def retry : Regex := char fun c => c == '0' || c == '1'

def stack : Regex :=
  seq (literal "<!-- runneryard-merge-queue:stack base=".toList) <| seq (group sha) <|
  seq (literal " prs=".toList) <| seq (group (seq entry (star (seq (one ',') entry)))) <|
  seq (literal " retry=".toList) <| seq (group retry) <|
  seq (literal " at=".toList) <| seq (group number) (literal " -->".toList)

def own : Regex :=
  seq (literal "<!-- runneryard-merge-queue:own head=".toList) <| seq (group sha) <|
  seq (literal " upstream=".toList) <| seq (group sha) (literal " -->".toList)

def landed : Regex :=
  seq (literal "<!-- runneryard-merge-queue:landed head=".toList) <| seq (group sha) (literal " -->".toList)

end Pattern

def memberText (member : Member) : String := Text.itoa member.number ++ "@" ++ member.sha

def stackMarker (stack : Stack) : String :=
  markerPrefix ++ "stack base=" ++ stack.base ++ " prs=" ++ Text.join "," (stack.members.map memberText) ++ " retry=" ++ Text.itoa stack.retry ++
    " at=" ++ Text.itoa (unix stack.atTime) ++ " -->"

def ownMarker (own : Own) : String := markerPrefix ++ "own head=" ++ own.head ++ " upstream=" ++ own.upstream ++ " -->"

def landedMarker (landed : Landed) : String := markerPrefix ++ "landed head=" ++ landed.head ++ " -->"

/-- One entry of a marker; a number out of range, not positive or seen before spoils it. -/
def parseMember (seen : List Int) (entry : String) : Option Member :=
  let parts := (Text.cut '@' entry).getD (entry, "")
  (Text.atoi parts.1).bind fun n => if n ≤ 0 || n ∈ seen then none else some { number := n, sha := parts.2 }

def parseMembers : List Int → List String → Option (List Member)
  | _, [] => some []
  | seen, entry :: rest => (parseMember seen entry).bind fun member => (parseMembers (member.number :: seen) rest).map (member :: ·)

def parseStack (body : String) : Option Stack :=
  match Pattern.stack.find body with
  | some [base, prs, retry, at_] =>
    (parseMembers [] (Text.split ',' prs)).bind fun members =>
      match Text.parseInt at_ with
      | (_, false) => none
      | (seconds, true) => some { base, members, retry := if retry = "1" then 1 else 0, atTime := ofUnix seconds }
  | _ => none

def maxOwns : Nat := 2

/-- `ParseOwns`, newest first. -/
def parseOwns (body : String) : List Own :=
  (Pattern.own.findAll body maxOwns).filterMap fun
    | [head, upstream] => some { head, upstream }
    | _ => none

def parseLanded (body : String) : Option Landed :=
  match Pattern.landed.find body with
  | some [head] => some { head }
  | _ => none

/-! ### Comments -/

def shortSHA (sha : String) : String := if 7 < sha.length then String.ofList (sha.toList.take 7) else sha

def refs (numbers : List Int) : String := Text.join ", " (numbers.map fun number => "#" ++ Text.itoa number)

def statusBody (text : String) (markers : List String) : String := Text.join "\n" (statusPrefix :: ("Merge queue: " ++ text) :: markers)

def ownMarkers (owns : List Own) : List String := (owns.take maxOwns).map ownMarker

def stackOwn (stack : Stack) (index : Nat) : Own where
  head := (stack.members.getD index default).sha
  upstream := if 0 < index then (stack.members.getD (index - 1) default).sha else stack.base

def waitingComment (position total : Int) (owns : List Own) : String :=
  statusBody ("position " ++ Text.itoa position ++ " of " ++ Text.itoa total ++ ", waiting for the stack ahead to resolve.") (ownMarkers owns)

def ineligibleComment (reason label : String) (owns : List Own) : String :=
  statusBody ("not queued: " ++ reason ++ ". Fix it and the queue picks this pull request up again while the `" ++ label ++ "` label stays on.")
    (ownMarkers owns)

/-- The status of the member at `index` of a stack in flight. The top one carries the stack marker. -/
def stackComment (stack : Stack) (index : Nat) (keep : List Own) : String :=
  let member := stack.members.getD index default
  let markers := ownMarkers (stackOwn stack index :: keep)
  let others := stack.numbers.filter (· ≠ member.number)
  let mates := if others = [] then "" else " with " ++ refs others
  if index + 1 = stack.members.length then
    let text := if 0 < stack.retry then "re-running the failed jobs once on this stack" ++ mates ++ " before giving up (" ++ shortSHA member.sha ++ ")."
      else "testing this branch as the top of a stack" ++ mates ++ ", rebased onto " ++ shortSHA stack.base ++ " as " ++ shortSHA member.sha ++ "."
    statusBody text (markers ++ [stackMarker stack])
  else statusBody ("rebased into a stack" ++ mates ++ " as " ++ shortSHA member.sha ++ ". CI runs once, on the top pull request.") markers

def landedComment (stack : Stack) (index : Nat) : String :=
  let batchmates := (stack.members.eraseIdx index).map Member.number
  let mates := if batchmates = [] then "" else " together with " ++ refs batchmates
  statusBody ("landed on the target as " ++ shortSHA stack.top.sha ++ mates ++ ".") [landedMarker { head := (stack.members.getD index default).sha }]

def rejectedComment (reason label : String) (urls : List String) (owns : List Own) : String :=
  let text := "rejected (" ++ reason ++ "). Re-apply the `" ++ label ++ "` label once this is fixed."
  statusBody (if urls = [] then text else text ++ "\n\n- " ++ Text.join "\n- " urls) (ownMarkers owns)

def requeuedComment (reason : String) (owns : List Own) : String := statusBody ("back in the queue (" ++ reason ++ ").") (ownMarkers owns)

end MergeQueue

end RunnerYard
