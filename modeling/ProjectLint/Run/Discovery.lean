/-
Finding the projects that given paths belong to. A folder is a project if it has a manifest; a path
inside a project leads to it, and any other folder is searched downwards. Projects that other found
projects reference as libraries are left to those.
-/
import ProjectLint.Run.Projects

namespace ProjectLint
namespace Discovery

open Run

/-- The given paths with their projects. -/
abbrev Found := List (String × ProjectRef)

def Found.set (found : Found) (path : String) (ref : ProjectRef) : Found :=
  if found.any (·.1 == path) then
    found.map fun entry => if entry.1 == path then (path, ref) else entry
  else found ++ [(path, ref)]

def register (e : Engine σ) (found : Found) (path dir reference : String) : Run σ Found := do
  let ref ← e.projectAt dir reference
  return found.set path ref

def searchBelow (e : Engine σ) (stopped : State σ → Bool) (reference : String) :
    Nat → String → Found → Run σ Found
  | 0, _, _ => throw .tooDeep
  | fuel + 1, dir, found => do
      let s ← get
      if stopped s then return found
      else if Project.isProjectDir s.files dir then register e found dir dir reference
      else carry (s.files.folders dir) found (searchBelow e stopped reference fuel)

def searchDepth (s : State σ) : Nat :=
  s.files.root.depth + Run.growth

def projectAmong? (ws : Workspace) (dirs : List String) : Option String :=
  dirs.find? (Project.isProjectDir ws)

def ancestors (path : String) : List String :=
  above (Path.parts path).length path
where
  above : Nat → String → List String
    | 0, _ => []
    | fuel + 1, path =>
        match Path.parent? path with
        | none => []
        | some parent => parent :: above fuel parent

def addFolder (e : Engine σ) (stopped : State σ → Bool) (dir reference : String) (found : Found) :
    Run σ Found := do
  let ws := (← get).files
  if Project.isProjectDir ws dir then register e found dir dir reference
  else
    match projectAmong? ws ((ancestors dir).take 2) with
    | some above => register e found dir above above
    | none => searchBelow e stopped reference (searchDepth (← get)) dir found

def addFile (e : Engine σ) (path : String) (found : Found) : Run σ Found := do
  match projectAmong? (← get).files (ancestors path) with
  | some above => register e found path above above
  | none =>
      note .debug ("[ProjectResolver] No project found above " ++ path)
      return found

def sharedRoot? (cwd : String) (paths : List String) : Option String :=
  if paths.length ≤ 1 then none
  else (Path.commonAncestor cwd paths).bind fun root => if root = "/" then none else some root

def referenceOf (cwd : String) (paths : List String) (dir : String) : String :=
  match sharedRoot? cwd paths with
  | some root => root
  | none => if paths.length ≤ 1 then dir else (Path.parent? dir).getD dir

def addPaths (e : Engine σ) (stopped : State σ → Bool) (all : List String) :
    List String → Found → Run σ (Option Found)
  | [], found => return some found
  | path :: rest, found => do
      let ws := (← get).files
      let found ←
        if ws.isFolder path then addFolder e stopped path (referenceOf ws.cwd all path) found
        else addFile e path found
      if stopped (← get) then return none
      else addPaths e stopped all rest found

def resetSubsets (e : Engine σ) (refs : List ProjectRef) : Run σ Unit :=
  each refs fun ref => do
    changeProject ref Project.resetSubset
    let libraries ← e.allLibraries ref
    each libraries fun library => changeProject library Project.resetSubset

/-- The path stands for all of the project. -/
def isWhole (ws : Workspace) (path : String) (ref : ProjectRef) : Bool :=
  path == ref.dir || (ws.isFolder path && ws.canonical path == ref.dir)

/-- A folder under another name than the directory of a project is compared by its canonical
path. -/
def followFolder (path : String) (ref : ProjectRef) : Run σ Unit := do
  if path != ref.dir && (← get).files.isFolder path then Engine.followLinks path else pure ()

def pointAt (found : Found) : Run σ Unit :=
  each found fun (path, ref) => do
    followFolder path ref
    if isWhole (← get).files path ref then pure ()
    else changeProject ref (·.addFile path)

def librariesOf (e : Engine σ) : List ProjectRef → Run σ (List ProjectRef)
  | [] => return []
  | ref :: rest => do
      let libraries ← e.allLibraries ref
      let others ← librariesOf e rest
      return libraries ++ others

def withLibraries (e : Engine σ) : List ProjectRef → Run σ (List ProjectRef)
  | [] => return []
  | ref :: rest => do
      let libraries ← e.allLibraries ref
      let others ← withLibraries e rest
      return ref :: libraries ++ others

def clash? (refs : List ProjectRef) : Option ProjectRef :=
  go [] refs
where
  go (seen : List ProjectRef) : List ProjectRef → Option ProjectRef
    | [] => none
    | ref :: rest =>
        match seen.find? (·.dir == ref.dir) with
        | some other => if other = ref then go seen rest else some ref
        | none => go (ref :: seen) rest

def checkDistinct (e : Engine σ) (roots : List ProjectRef) : Run σ Unit := do
  if e.options.assertions then
    match clash? (← withLibraries e roots) with
    | some ref => throw (.twoProjects ref.dir)
    | none => pure ()
  else pure ()

/-- The projects for the paths, without those that are libraries of others. -/
def resolve (e : Engine σ) (stopped : State σ → Bool) (paths : List String) :
    Run σ (List ProjectRef) := do
  let all := paths.map (Path.resolve (← get).files.cwd)
  match ← addPaths e stopped all all [] with
  | none => return []
  | some found =>
      let projects := distinct (found.map Prod.snd)
      resetSubsets e projects
      pointAt found
      let libraries ← librariesOf e projects
      let roots := projects.filter fun ref => !libraries.contains ref
      checkDistinct e roots
      note .debug ("[ProjectResolver] Resolved " ++ toString roots.length ++ " root projects")
        [("paths", .ofNat paths.length), ("discovered", .ofNat projects.length)]
      return roots

end Discovery
end ProjectLint
