/-
A run: the projects that the given paths lead to are checked one after the other, each in up to
three phases. A canceled run stops at the next opportunity, reports so once, and ends with an event
of its own.
-/
import ProjectLint.Run.Discovery
import ProjectLint.Run.Planning
import ProjectLint.Run.Stages

namespace ProjectLint
namespace Engine

open Run

def projectContext (project : ProjectRef) : Context :=
  ⟨project, none, project.dir, .plain⟩

def libraryContext (library main : ProjectRef) : Context :=
  ⟨library, some main, library.dir, .plain⟩

def reportCanceled (e : Engine σ) (context : Context) : Run σ Unit := do
  if (← get).cancelReported then pure ()
  else
    modify fun s => { s with cancelReported := true }
    e.submit .engine ⟨context, .canceled, none, Issue.canceledMessage, .null⟩

def tellUntilCanceled (e : Engine σ) (detectors : List Detector) (hook : Hook) : Run σ Unit :=
  eachUntilCanceled detectors fun detector => e.ask detector hook

def checkLibrary (e : Engine σ) (detectors : List Detector) (main library : ProjectRef) :
    Run σ Unit := do
  let context := libraryContext library main
  e.fire .scanningLibrary (some context)
  e.tellUntilCanceled detectors (.beforeLibrary context)
  unlessCanceled do
    e.checkFiles ⟨library, main⟩
    unlessCanceled (e.tellUntilCanceled detectors (.afterLibrary context))

def checkLibraries (e : Engine σ) (detectors : List Detector) (project : ProjectRef) :
    Run σ Unit := do
  if (← get).scope.isSingleFile then pure ()
  else
    let libraries ← e.libraries project
    eachUntilCanceled libraries (e.checkLibrary detectors project)

def checkPhase (e : Engine σ) (project : ProjectRef) : Run σ Unit := do
  let context := projectContext project
  let detectors := (← get).selection.detectors
  e.fire .scanningProject (some context)
  e.tellUntilCanceled detectors (.beforeProject context)
  unlessCanceled do
    e.checkFiles ⟨project, project⟩
    unlessCanceled do
      e.checkLibraries detectors project
      unlessCanceled (e.tellUntilCanceled detectors (.afterProject context))

def checkProject (e : Engine σ) (project : ProjectRef) : Run σ Unit := do
  e.checkPhase project
  if (← get).canceled then e.reportCanceled (projectContext project) else pure ()

def forgetVisitor : Run σ Unit :=
  modify fun s => { s with memo := none }

def extraPhases (e : Engine σ) (project : ProjectRef) : Nat → Run σ Unit
  | 0 => pure ()
  | fuel + 1 => do
      match (ownSlot.schedule (← get)).advance? with
      | none => pure ()
      | some advanced =>
          setSchedule advanced
          e.fire .newPhase (some (projectContext project))
          let s ← get
          let scope := (ownSlot.schedule s).narrowed s.scope
          set { s with scope }
          if scope.isEmpty then pure ()
          else
            let detectors ← e.replan ownSlot (e.configuration project)
            forgetVisitor
            match detectors with
            | [] => pure ()
            | _ => e.checkProject project
            let s ← get
            let schedule := ownSlot.schedule s
            if (s.canceled && !detectors.isEmpty) || Options.maxPhases ≤ schedule.phase ||
                !schedule.isPending then pure ()
            else e.extraPhases project fuel

def repeatPhases (e : Engine σ) (project : ProjectRef) : Run σ Unit := do
  if (ownSlot.schedule (← get)).isPending then
    keepingScope (e.extraPhases project Options.maxPhases)
  else pure ()

/-- All phases for one project. -/
def checkRoot (e : Engine σ) (project : ProjectRef) : Run σ Unit := do
  let detectors ← e.plan ownSlot (e.configuration project) (← get).scope
  forgetVisitor
  match detectors with
  | [] => note .debug ("[LintEngine] No detectors enabled for " ++ project.dir ++ "; skipping")
  | _ =>
      e.checkProject project
      unlessCanceled (e.repeatPhases project)

def checkRoots (e : Engine σ) (current : ProjectRef) : List ProjectRef → Run σ ProjectRef
  | [] => return current
  | project :: rest => do
      if (← get).canceled then return current
      else
        e.checkRoot project
        e.checkRoots project rest

def finish (e : Engine σ) (current : ProjectRef) (elapsed : Int) : Run σ Unit := do
  if (← get).canceled then e.reportCanceled (projectContext current) else pure ()
  let outcome := if (← get).canceled then "Canceled" else "Completed"
  note .info ("[LintEngine] " ++ outcome ++ " after " ++ Log.duration elapsed)
  e.fire (if (← get).canceled then .canceled else .completed)

def checkAll (e : Engine σ) (first : ProjectRef) (rest : List ProjectRef) (elapsed : Int) :
    Run σ Unit := do
  modify fun s => { s with schedule := some {}, memo := none, cancelReported := false }
  note .info ("[LintEngine] Checking " ++ toString (rest.length + 1) ++ " projects")
    [("scope", .text (← get).scope.text)]
  e.fire .starting
  let current ← e.checkRoots first (first :: rest)
  e.finish current elapsed

/-- A run: finds the projects for the paths and checks each of them. -/
def analyze (e : Engine σ) (paths : List String) (scope : Option ScopeSet) (elapsed : Int) :
    Run σ Unit := do
  modify fun s => { s with canceled := false, scope := scope.getD .all }
  let roots ← Discovery.resolve e State.canceled paths
  unlessCanceled do
    match roots with
    | [] => e.log none ("No projects found for " ++ Text.joined ", " paths)
    | first :: rest =>
        modify fun s =>
          { s with
            scope := scope.getD (Layout.inferScope (roots.map fun ref => (s.project ref).subset)) }
        e.checkAll first rest elapsed

end Engine
end ProjectLint
