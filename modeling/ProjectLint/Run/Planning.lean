/-
Choosing the detectors of a phase. The first phase makes one instance for each class with an enabled
and admitted issue; later phases keep the instances that asked to run again.
-/
import ProjectLint.Run.Projects

namespace ProjectLint
namespace Engine

open Run

def serialOf (serials : List (DetectorClass × Nat)) (name : DetectorClass) : Nat :=
  (serials.lookup name).getD 0

def instantiate (e : Engine σ) (name : DetectorClass) : Run σ Detector := do
  let s ← get
  match e.host.construct name s.host with
  | .error fault => throw fault
  | .ok () =>
      let serial := serialOf s.serials name + 1
      let others := s.serials.filter (·.1 != name)
      set { s with serials := (name, serial) :: others }
      return ⟨name, serial⟩

def instantiateAll (e : Engine σ) :
    List (DetectorClass × ScopeSet) → Run σ (List (Detector × ScopeSet))
  | [] => return []
  | (name, scope) :: rest => do
      let detector ← e.instantiate name
      let others ← e.instantiateAll rest
      return (detector, scope) :: others

/-- Makes instances of the classes that serve an enabled issue in scope. -/
def select (e : Engine σ) (config : Configuration) (scope : ScopeSet) : Run σ Selection := do
  let members ← e.instantiateAll ((← get).registry.selectedClasses config scope)
  note .debug ("[IssueRegistry] Created " ++ toString members.length ++ " detectors for scope " ++
    scope.text)
  return ⟨members⟩

def misplaced? (e : Engine σ) (selection : Selection) : Option Fault :=
  Scope.all.findSome? fun scope =>
    (Scanner.required? scope).bind fun scanner =>
      ((selection.bucket scope).find? fun detector => !e.host.scans detector.className scanner).map
        fun detector => .wrongScanner detector.className scope scanner

def checkSelection (e : Engine σ) (selection : Selection) : Run σ Unit :=
  if e.options.assertions then
    match e.misplaced? selection with
    | some fault => throw fault
    | none => pure ()
  else pure ()

structure Slot (σ : Type) where
  schedule : State σ → Schedule
  put : Schedule → State σ → State σ

def Slot.change (slot : Slot σ) (change : Schedule → Schedule) : Run σ Unit :=
  modify fun s => slot.put (change (slot.schedule s)) s

def Slot.choose (slot : Slot σ) (selection : Selection) : Run σ Unit := do
  slot.change fun schedule => { schedule with selection }
  record (.planned (slot.schedule (← get)).phase selection.detectors)

def ownSlot : Slot σ where
  schedule := fun s => s.schedule.getD {}
  put := fun schedule s => { s with schedule := some schedule }

def restarted (schedule : Schedule) : Schedule :=
  { schedule with phase := 1, requests := none }

def plan (e : Engine σ) (slot : Slot σ) (config : Run σ Configuration) (scope : ScopeSet) :
    Run σ (List Detector) := do
  slot.change restarted
  let selection ← e.select (← config) scope
  slot.choose selection
  e.checkSelection selection
  return selection.detectors

def replan (e : Engine σ) (slot : Slot σ) (config : Run σ Configuration) :
    Run σ (List Detector) := do
  let requested := (slot.schedule (← get)).requested
  slot.change fun schedule => { schedule with requests := none }
  let config ← config
  let selection := Schedule.repeating (← get).registry config requested
  slot.choose selection
  note .debug ("[DetectorScheduler] Phase " ++ toString (slot.schedule (← get)).phase ++
    ": repeating " ++ toString selection.members.length ++ " of " ++ toString requested.length ++
    " requested detectors")
  e.checkSelection selection
  return selection.detectors

end Engine
end ProjectLint
