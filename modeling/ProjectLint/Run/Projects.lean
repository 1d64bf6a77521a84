/-
Making projects and following the references between them. The client keeps one project for each
canonical directory; libraries are looked up when they are first asked for.
-/
import ProjectLint.Run.Engine

namespace ProjectLint
namespace Engine

open Run

/-- Asking for the canonical path of a path comes back only if the links on its way end. -/
def followLinks (path : String) : Run σ Unit := do
  if (← get).files.linksEnd path then pure () else throw .endless

def readProperties (e : Engine σ) (dir : String) : Run σ Properties := do
  let ws := (← get).files
  let path := Path.join dir Layout.properties
  if ws.isFile path then
    match ws.readText path with
    | .ok text => return Properties.parse text
    | .error fault =>
        e.log (some (fault.message path)) ("Could not read " ++ path)
        return []
  else return []

def makeProject (e : Engine σ) (dir reference : String) : Run σ ProjectRef := do
  followLinks dir
  let project := Project.ofFolder (← get).files dir reference
  let properties ← e.readProperties project.dir
  addProject (project.withProperties properties)

def cachedProject (e : Engine σ) (cache : List (String × ProjectRef)) (dir reference : String) :
    Run σ (ProjectRef × List (String × ProjectRef)) := do
  followLinks dir
  let key := (← get).files.canonical dir
  match cache.lookup key with
  | some ref => return (ref, cache)
  | none =>
      let ref ← e.makeProject key reference
      return (ref, cache ++ [(key, ref)])

/-- The project of a directory, as the client gives it. -/
def projectAt (e : Engine σ) (dir reference : String) : Run σ ProjectRef := do
  e.invoke (.getProject dir reference)
  let ref ←
    if e.host.keepsProjects then do
      let (ref, cache) ← e.cachedProject (← get).cache dir reference
      modify fun s => { s with cache }
      pure ref
    else e.makeProject dir reference
  changeProject ref (e.host.overrides ref.dir).apply
  return ref

def lookUpLibraries (e : Engine σ) (dir : String) : List String → Run σ (List ProjectRef)
  | [] => return []
  | library :: rest => do
      if (← get).files.isFolder library then
        let ref ← e.projectAt library library
        let refs ← e.lookUpLibraries dir rest
        return ref :: refs
      else
        e.log none ("Library project " ++ library ++ " referenced from " ++ dir ++
          " does not exist")
        e.lookUpLibraries dir rest

/-- The libraries that a project refers to, looked up once. -/
def libraries (e : Engine σ) (ref : ProjectRef) : Run σ (List ProjectRef) := do
  let project ← getProject ref
  match project.libraries with
  | some refs => return refs
  | none =>
      let refs ← e.lookUpLibraries project.dir project.libraryDirs
      changeProject ref fun project => { project with libraries := some refs }
      return refs

def closeOver (e : Engine σ) : Nat → ProjectRef → List ProjectRef → Run σ (List ProjectRef)
  | 0, _, _ => throw .tooDeep
  | fuel + 1, ref, seen => do
      let refs ← e.libraries ref
      carry refs seen fun library seen =>
        if seen.contains library then return seen
        else e.closeOver fuel library (seen ++ [library])

def referenceDepth (e : Engine σ) (s : State σ) : Nat :=
  (if e.host.keepsProjects then s.files.folderRoom else s.files.root.entryCount) +
    s.projects.size + growth

/-- The libraries of a project and of its libraries. -/
def allLibraries (e : Engine σ) (ref : ProjectRef) : Run σ (List ProjectRef) := do
  let seen ← e.closeOver (e.referenceDepth (← get)) ref [ref]
  return seen.drop 1

end Engine
end ProjectLint
