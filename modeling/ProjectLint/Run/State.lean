/-
The state of an engine with its client and its embedding, and operations that change it. A fault
ends an operation and leaves the state as it was when the fault arose.
-/
import ProjectLint.Run.Host
import ProjectLint.Run.Visitor
import ProjectLint.Schedule

namespace ProjectLint

/-- All that the engine keeps. -/
structure State (σ : Type) where
  /-- What the embedding remembers. -/
  host : σ
  files : Workspace
  registry : Registry := {}
  /-- All projects ever made, by their numbers. -/
  projects : Array Project := #[]
  /-- The projects that the client keeps, by canonical directory. -/
  cache : List (String × ProjectRef) := []
  /-- How many instances of each class were made. -/
  serials : List (DetectorClass × Nat) := []
  listeners : List Listener := []
  canceled : Bool := false
  /-- Whether a search for projects outside of a run is canceled. -/
  searchCanceled : Bool := false
  scope : ScopeSet := .all
  schedule : Option Schedule := none
  memo : Option VisitorMemo := none
  /-- Whether this run has reported that it was canceled. -/
  cancelReported : Bool := false
  journal : Array Journal.Entry := #[]

namespace State

def phase (s : State σ) : Nat :=
  (s.schedule.map Schedule.phase).getD 1

def moment (s : State σ) : Moment :=
  ⟨s.scope, s.phase, s.canceled⟩

/-- The project that a reference is to. -/
def project (s : State σ) (ref : ProjectRef) : Project :=
  s.projects.getD ref.index { dir := ref.dir, reference := ref.dir }

def selection (s : State σ) : Selection :=
  (s.schedule.map Schedule.selection).getD {}

abbrev changed (s : State σ) (index : Nat) (change : Project → Project) : State σ :=
  { s with projects := s.projects.modify index change }

abbrev extended (s : State σ) (project : Project) : State σ :=
  { s with projects := s.projects.push project }

end State

/-- Operations on the state that may break off. -/
abbrev Run (σ α : Type) := EStateM Fault (State σ) α

namespace Run

def record (entry : Journal.Entry) : Run σ Unit :=
  modify fun s => { s with journal := s.journal.push entry }

def note (level : Log.Level) (message : String) (details : List (String × Data.Value) := []) :
    Run σ Unit :=
  record (.logged ⟨level, message, details⟩)

def attempt (operation : Run σ α) : Run σ (Except Fault α) := fun s =>
  match operation s with
  | .ok a s' => .ok (.ok a) s'
  | .error fault s' => .ok (.error fault) s'

def keepingScope (operation : Run σ α) : Run σ α := fun s =>
  match operation s with
  | .ok a s' => .ok a { s' with scope := s.scope }
  | .error fault s' => .error fault { s' with scope := s.scope }

def unlessCanceled (operation : Run σ Unit) : Run σ Unit := do
  if (← get).canceled then pure () else operation

def eachUntilCanceled (elements : List α) (operation : α → Run σ Unit) : Run σ Unit :=
  match elements with
  | [] => pure ()
  | element :: rest => do
      operation element
      unlessCanceled (eachUntilCanceled rest operation)

def each (elements : List α) (operation : α → Run σ Unit) : Run σ Unit :=
  match elements with
  | [] => pure ()
  | element :: rest => do
      operation element
      each rest operation

def carry (elements : List α) (start : β) (operation : α → β → Run σ β) : Run σ β :=
  match elements with
  | [] => return start
  | element :: rest => do
      let next ← operation element start
      carry rest next operation

def growth : Nat := 10000

def getProject (ref : ProjectRef) : Run σ Project := do
  return (← get).project ref

def changeProject (ref : ProjectRef) (change : Project → Project) : Run σ Unit :=
  modify fun s => s.changed ref.index change

def addProject (project : Project) : Run σ ProjectRef := do
  let s ← get
  let ref : ProjectRef := ⟨s.projects.size, project.dir⟩
  set (s.extended project)
  return ref

def setSchedule (schedule : Schedule) : Run σ Unit :=
  modify fun s => { s with schedule := some schedule }

def requestRepeat (detector : Detector) (scope : Option ScopeSet) : Run σ Unit := do
  match (← get).schedule with
  | none => note .warn "[LintEngine] requestRepeat called outside of a run"
  | some schedule =>
      record (.requested detector scope)
      setSchedule (schedule.request detector scope)

def addListener (listener : Listener) : Run σ Unit :=
  modify fun s => { s with listeners := s.listeners ++ [listener] }

def removeListener (listener : Listener) : Run σ Unit :=
  modify fun s => { s with listeners := s.listeners.erase listener }

def cancel : Run σ Unit :=
  modify fun s => { s with canceled := true }

def register (issue : Issue) : Run σ Unit := do
  let s ← get
  if (s.registry.get? issue.id).isSome then
    note .warn ("[IssueRegistry] Overwriting existing issue: " ++ issue.id)
  modify fun s => { s with registry := s.registry.register issue }

def unregister (id : String) : Run σ Bool := do
  let s ← get
  set { s with registry := s.registry.unregister id }
  return (s.registry.get? id).isSome

end Run
end ProjectLint
