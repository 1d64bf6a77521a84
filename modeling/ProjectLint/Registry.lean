/-
The issues that an engine knows, in the order of their registration. A registration under a known id
takes the place of the earlier one.
-/
import ProjectLint.Configuration
import ProjectLint.Detector

namespace ProjectLint

/-- The issues that are known. -/
structure Registry where
  issues : List Issue := []

namespace Registry

def get? (registry : Registry) (id : String) : Option Issue :=
  registry.issues.find? (·.id == id)

def register (registry : Registry) (issue : Issue) : Registry :=
  if registry.issues.any (·.id == issue.id) then
    ⟨registry.issues.map fun known => if known.id == issue.id then issue else known⟩
  else ⟨registry.issues ++ [issue]⟩

def unregister (registry : Registry) (id : String) : Registry :=
  ⟨registry.issues.filter (·.id != id)⟩

def addScope (classes : List (DetectorClass × ScopeSet)) (name : DetectorClass)
    (scope : ScopeSet) : List (DetectorClass × ScopeSet) :=
  if classes.any (·.1 == name) then
    classes.map fun entry => if entry.1 == name then (name, entry.2.union scope) else entry
  else classes ++ [(name, scope)]

def selectedClass? (config : Configuration) (scope : ScopeSet) (issue : Issue) :
    Option DetectorClass :=
  match issue.detector with
  | some name => if config.isEnabled issue && scope.admits issue.scope then some name else none
  | none => none

def selectedClasses (registry : Registry) (config : Configuration) (scope : ScopeSet) :
    List (DetectorClass × ScopeSet) :=
  registry.issues.foldl
    (fun classes issue =>
      match selectedClass? config scope issue with
      | some name => addScope classes name issue.scope
      | none => classes) []

def enabledIssues (registry : Registry) (config : Configuration) (name : DetectorClass) :
    List Issue :=
  registry.issues.filter fun issue => issue.detector == some name && config.isEnabled issue

end Registry
end ProjectLint
