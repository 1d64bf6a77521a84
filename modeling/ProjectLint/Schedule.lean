/-
The detectors of a phase and the requests for the next one. Detectors are kept in the order in which
they were selected, each with the categories it serves; a bucket holds those that serve one.
-/
import ProjectLint.Options
import ProjectLint.Registry

namespace ProjectLint

/-- The detectors of a phase, each with the categories that it serves. -/
structure Selection where
  members : List (Detector × ScopeSet) := []

namespace Selection

def detectors (selection : Selection) : List Detector :=
  selection.members.map Prod.fst

/-- The detectors that serve a category. -/
def bucket (selection : Selection) (scope : Scope) : List Detector :=
  (selection.members.filter fun member => member.2.contains scope).map Prod.fst

def buckets (selection : Selection) : List (Scope × List Detector) :=
  (Scope.all.map fun scope => (scope, selection.bucket scope)).filter fun entry => !entry.2.isEmpty

/-- The detectors that serve one of two categories. -/
def merged (selection : Selection) (first second : Scope) : List Detector :=
  distinct (selection.bucket first ++ selection.bucket second)

end Selection

structure Requests where
  detectors : List Detector
  scope : ScopeSet

namespace Requests

def add (requests : Option Requests) (detector : Detector) (scope : Option ScopeSet) : Requests :=
  let scope := scope.getD .all
  match requests with
  | none => ⟨[detector], scope⟩
  | some known =>
      ⟨if known.detectors.contains detector then known.detectors
        else known.detectors ++ [detector],
        known.scope.union scope⟩

end Requests

structure Schedule where
  selection : Selection := {}
  phase : Nat := 1
  requests : Option Requests := none

namespace Schedule

def request (schedule : Schedule) (detector : Detector) (scope : Option ScopeSet) : Schedule :=
  { schedule with requests := some (Requests.add schedule.requests detector scope) }

def isPending (schedule : Schedule) : Bool :=
  schedule.requests.isSome

def advance? (schedule : Schedule) : Option Schedule :=
  if Options.maxPhases ≤ schedule.phase then none
  else some { schedule with phase := schedule.phase + 1 }

def narrowed (schedule : Schedule) (scope : ScopeSet) : ScopeSet :=
  scope.inter ((schedule.requests.map Requests.scope).getD .all)

def requested (schedule : Schedule) : List Detector :=
  (schedule.requests.map Requests.detectors).getD []

def repeating (registry : Registry) (config : Configuration) (detectors : List Detector) :
    Selection :=
  ⟨detectors.filterMap fun detector =>
    match registry.enabledIssues config detector.className with
    | [] => none
    | issues => some (detector, issues.foldl (fun scope issue => scope.union issue.scope) .empty)⟩

end Schedule
end ProjectLint
